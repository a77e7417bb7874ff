import ScriptTree.Command.Run
import ScriptTree.Proofs.JsonLayout
import ScriptTree.Proofs.ReadBack
import ScriptTree.Proofs.Tiling

/-!
# Channels of a source

The source of a command is code among its arguments, a file, or standard input. What a run writes
and how it ends does not depend on which of them it is: the arguments of a run are a frame of flags
into which each spelling of a source can be filled, and all that the rest of the run sees of it is
its text. A result is written whole, or nothing is written. What it means that a result is written
is said by reading: a tree is found again in its text, and a listing names the kinds of its tokens.

Main statement: `answers_of_channel`.
-/

namespace ScriptTree

/-- A run shows a result whole and ends with code 0, or shows nothing and ends with code 1. -/
structure Shows {α : Type} (result : Except SyntaxError α) (Writes : α → String → Prop)
    (code : UInt8) (output : String) : Prop where
  code_eq_zero_iff : code = 0 ↔ ∃ value, result = .ok value
  writes : ∀ value, result = .ok value → Writes value output
  nothing : ∀ error, result = .error error → code = 1 ∧ output = ""

section Shows

variable {α : Type} {Writes : α → String → Prop} {result : Except SyntaxError α}

lemma Shows.of_ok {value : α} {output : String} (h : result = .ok value)
    (hwrites : Writes value output) : Shows result Writes 0 output where
  code_eq_zero_iff := iff_of_true rfl ⟨value, h⟩
  writes other hother := by
    rw [h] at hother
    cases hother
    exact hwrites
  nothing error herror := by
    rw [h] at herror
    cases herror

lemma Shows.of_error {error : SyntaxError} (h : result = .error error) :
    Shows result Writes 1 "" where
  code_eq_zero_iff := by simp [h]
  writes value hvalue := by
    rw [h] at hvalue
    cases hvalue
  nothing _ _ := ⟨rfl, rfl⟩

end Shows

/-- A text has a tree in it: it is JSON that is read as the tree, set out in a style. -/
structure Holds (style : JsonStyle) (tree : Node) (text : String) : Prop where
  read : ∃ value, JsonValue.ofText? text = some value ∧ Node.ofJson? value = some tree
  setsOut : style.SetsOut text

/-- The kinds of tokens, each under its name in a listing. -/
def Kind.tags : List (String × Kind) := [
  ("Number", .number), ("BigInt", .bigInt), ("String", .string), ("Regex", .regex),
  ("Boolean", .boolean), ("Null", .null), ("Undefined", .undefined), ("Semicolon", .semicolon),
  ("LBrace", .lBrace), ("RBrace", .rBrace), ("LBracket", .lBracket), ("RBracket", .rBracket),
  ("LParen", .lParen), ("RParen", .rParen), ("Dot", .dot), ("Comma", .comma), ("Colon", .colon),
  ("Hash", .hash), ("Backtick", .backtick), ("Arrow", .arrow), ("DollarBrace", .dollarBrace),
  ("QuestionDot", .questionDot), ("LogicalAnd", .logicalAnd),
  ("LogicalOrNullish", .logicalOrNullish), ("BitwiseOr", .bitwiseOr), ("BitwiseAnd", .bitwiseAnd),
  ("BitwiseXor", .bitwiseXor), ("Power", .power), ("Comparison", .comparison),
  ("Equality", .equality), ("Assignment", .assignment), ("ComplexAssignment", .complexAssignment),
  ("IncrementDecrement", .incrementDecrement), ("Bang", .bang), ("Additive", .additive),
  ("Multiplicative", .multiplicative), ("LetOrConst", .kwLetOrConst), ("If", .kwIf),
  ("Else", .kwElse), ("Of", .kwOf), ("For", .kwFor), ("While", .kwWhile), ("Do", .kwDo),
  ("Continue", .kwContinue), ("Break", .kwBreak), ("Async", .kwAsync), ("Await", .kwAwait),
  ("Yield", .kwYield), ("This", .kwThis), ("Throw", .kwThrow), ("Try", .kwTry),
  ("Catch", .kwCatch), ("Finally", .kwFinally), ("FunctionStar", .kwFunctionStar),
  ("Function", .kwFunction), ("Return", .kwReturn), ("Class", .kwClass), ("Static", .kwStatic),
  ("Extends", .kwExtends), ("New", .kwNew), ("Identifier", .identifier),
  ("TemplateString", .templateString), ("EndOfFile", .endOfFile)]

/-- The kind that a name in a listing stands for. -/
def Kind.ofTag? (name : String) : Option Kind :=
  tags.lookup name

lemma Kind.ofTag?_eq_some_iff {name : String} {kind : Kind} :
    ofTag? name = some kind ↔ name = kind.tag := by
  constructor
  · intro h
    have htags : ∀ entry ∈ tags, entry.1 = entry.2.tag := by decide +kernel
    obtain ⟨front, back, hsplit, -⟩ := List.lookup_eq_some_iff.1 h
    refine htags (name, kind) ?_
    rw [hsplit]
    exact List.mem_append_right _ List.mem_cons_self
  · rintro rfl
    cases kind <;> rfl

/-- A row for each token: the name of its kind, a tab, its text and a line feed. -/
inductive Rows : List Token → List Char → Prop where
  | nil : Rows [] []
  | cons {token : Token} {name : String} {tokens : List Token} {rest : List Char}
      (hname : Kind.ofTag? name = some token.kind) (h : Rows tokens rest) :
      Rows (token :: tokens) (name.toList ++ '\t' :: (token.text.toList ++ '\n' :: rest))

/-- A listing has a row for each token. The last token, and no other, is the end token. -/
structure Listing (tokens : List Token) (output : String) : Prop where
  rows : Rows tokens output.toList
  ends : ∃ body last, tokens = body ++ [last] ∧ last.kind = .endOfFile ∧
    ∀ token ∈ body, token.kind ≠ .endOfFile

/-- What a command has to show for a text, with the layout and the nesting limit asked for. The
demonstration takes neither. -/
def Command.Answers (command : Command) (compact : Bool) (limit : Nat) (text : String) :
    UInt8 → String → Prop :=
  match command with
  | .parse => Shows (ScriptTree.parse text limit) fun tree output =>
      ∃ json, output = json ++ "\n" ∧ Holds (if compact then .compact else .indented) tree json
  | .tokens => Shows (tokenize text) Listing
  | .demo => Shows (ScriptTree.parse text defaultLimit) fun tree output =>
      ∃ json, output = json ++ "\n" ∧ Holds .indented tree json

/-- The options ask for a layout and for a nesting limit, which they need not name. -/
def Options.AsksFor (options : Options) (compact : Bool) (limit : Nat) : Prop :=
  options.compact = compact ∧ options.limit?.getD defaultLimit = limit

lemma holds_render {source : String} {limit : Nat} {tree : Node}
    (h : parse source limit = .ok tree) (style : JsonStyle) :
    Holds style tree (tree.toJson.render style) := by
  obtain ⟨htext, htree⟩ := json_of_parse h
  exact ⟨⟨_, htext style, htree⟩, tree.toJson.setsOut_render style⟩

lemma runParse_shows (source : NamedSource) (limit : Nat) (style : JsonStyle) :
    Shows (parse source.text limit) (fun tree output => ∃ json, output = json ++ "\n" ∧
      Holds style tree json) (runParse source limit style).exitCode
      (runParse source limit style).output := by
  unfold runParse
  cases h : parse source.text limit with
  | ok tree => exact .of_ok rfl ⟨_, rfl, holds_render h style⟩
  | error error => exact .of_error rfl

/-- What `tokens` writes for the tokens of a source. -/
def listed (tokens : List Token) : String :=
  String.join (tokens.map fun token => token.kind.tag ++ "\t" ++ token.text ++ "\n")

lemma rows_listed (tokens : List Token) : Rows tokens (listed tokens).toList := by
  induction tokens with
  | nil => exact .nil
  | cons token tokens ih =>
    have hrow : (listed (token :: tokens)).toList =
        token.kind.tag.toList ++ '\t' :: (token.text.toList ++ '\n' :: (listed tokens).toList) := by
      simp [listed, String.toList_join]
    rw [hrow]
    exact .cons (Kind.ofTag?_eq_some_iff.2 rfl) ih

lemma listing_of_tokenize {text : String} {tokens : List Token} (h : tokenize text = .ok tokens) :
    Listing tokens (listed tokens) := by
  obtain ⟨before, rest, -, htiled, hstops⟩ := (Cursor.ofSource text).scan_tiled
  rw [tokenize_eq_scan] at h
  unfold scanSource at h
  generalize (Cursor.ofSource text).scan = scanned at *
  obtain ⟨body, stop⟩ := scanned
  cases hstops with
  | fault hrule => cases h
  | done =>
    cases h
    refine ⟨rows_listed _, _, _, rfl, rfl, ?_⟩
    intro token hmem
    obtain ⟨_, _, _, -, -, hkind, -⟩ := htiled.exists_part hmem
    exact hkind

lemma runTokens_shows (source : NamedSource) :
    Shows (tokenize source.text) Listing (runTokens source).exitCode (runTokens source).output := by
  unfold runTokens
  cases h : tokenize source.text with
  | ok tokens => exact .of_ok rfl (listing_of_tokenize h)
  | error error => exact .of_error rfl

lemma Command.run_answers (command : Command) {options : Options} {compact : Bool} {limit : Nat}
    (h : options.AsksFor compact limit) (source : NamedSource) :
    command.Answers compact limit source.text (command.run options source).exitCode
      (command.run options source).output := by
  obtain ⟨rfl, rfl⟩ := h
  cases command with
  | parse => exact runParse_shows source _ _
  | tokens => exact runTokens_shows source
  | demo => exact runParse_shows source defaultLimit .indented

/-- What a command shows for a source depends on the text alone. Only the report of a fault, which
is no part of the output, tells the name of the source. -/
lemma Command.run_congr (command : Command) {options options' : Options} {compact : Bool}
    {limit : Nat} (h : options.AsksFor compact limit) (h' : options'.AsksFor compact limit)
    (name name' text : String) :
    (command.run options ⟨name, text⟩).exitCode = (command.run options' ⟨name', text⟩).exitCode ∧
      (command.run options ⟨name, text⟩).output = (command.run options' ⟨name', text⟩).output := by
  have hparse : ∀ limit style,
      (runParse ⟨name, text⟩ limit style).exitCode = (runParse ⟨name', text⟩ limit style).exitCode ∧
        (runParse ⟨name, text⟩ limit style).output = (runParse ⟨name', text⟩ limit style).output := by
    intro limit style
    unfold runParse
    cases ScriptTree.parse text limit <;> exact ⟨rfl, rfl⟩
  obtain ⟨hcompact, hlimit⟩ := h
  obtain ⟨hcompact', hlimit'⟩ := h'
  cases command with
  | parse =>
    simp only [run, hcompact, hlimit, hcompact', hlimit']
    exact hparse limit _
  | tokens =>
    simp only [run, runTokens]
    cases tokenize text <;> exact ⟨rfl, rfl⟩
  | demo => exact hparse defaultLimit .indented

/-! ### From a channel to the text -/

/-- The text of a host's file or input, or of the code among the arguments, is what a command reads.
Code is read even if there is a file. -/
inductive Delivers {m : Type → Type} [Monad m] (host : Host m) (text : String) :
    Option String → Option String → Prop where
  | code (file? : Option String) : Delivers host text (some text) file?
  | file {name : String} (hname : isStandardInput name = false)
      (h : host.file name = pure (.ok text.toUTF8)) : Delivers host text none (some name)
  | dash {name : String} (hname : isStandardInput name = true)
      (h : host.input = pure (.ok text.toUTF8)) : Delivers host text none (some name)
  | omitted (h : host.input = pure (.ok text.toUTF8)) : Delivers host text none none

lemma decodeText_toUTF8 (text : String) : decodeText text.toUTF8 = .ok text := by
  have hvalid : text.toUTF8.IsValidUTF8 := text.isValidUTF8
  simp only [decodeText, String.fromUTF8?, dif_pos hvalid]
  rfl

section Run

variable {m : Type → Type} [Monad m] [LawfulMonad m] {host : Host m} {text : String}

lemma readSource_of_delivers {code? file? : Option String}
    (h : Delivers host text code? file?) :
    ∃ name, readSource host file? code? = pure (.ok ⟨name, text⟩) := by
  cases h with
  | code => exact ⟨_, rfl⟩
  | @file name hname h =>
    refine ⟨name, ?_⟩
    simp only [readSource, hname, h, pure_bind, Bool.false_eq_true, if_false]
    simp only [bind, Except.bind, decodeText_toUTF8]
  | dash hname h =>
    refine ⟨"<stdin>", ?_⟩
    simp only [readSource, readSource.fromInput, hname, h, pure_bind, if_true]
    simp only [bind, Except.bind, decodeText_toUTF8]
  | omitted h =>
    refine ⟨"<stdin>", ?_⟩
    simp only [readSource, readSource.fromInput, h, pure_bind]
    simp only [bind, Except.bind, decodeText_toUTF8]

/-- A run that is asked for and has a text ends as the command does on this text. -/
lemma execute_of_delivers {args : List String} {command : Command} {before behind asked : Options}
    {compact : Bool} {limit : Nat} (hcommand : command ≠ .demo)
    (hargs : readArguments args = .ok (.run command before behind))
    (hasks : behind.AsksFor compact limit) (hasked : asked.AsksFor compact limit)
    (h : Delivers host text behind.code? behind.file?) (name : String) :
    ∃ errors, execute host args = pure ⟨(command.run asked ⟨name, text⟩).exitCode,
      (command.run asked ⟨name, text⟩).output, errors⟩ := by
  obtain ⟨source, hsource⟩ := readSource_of_delivers h
  have hread : command.source host behind = pure (.ok ⟨source, text⟩) := by
    cases command with
    | demo => exact absurd rfl hcommand
    | parse | tokens => exact hsource
  obtain ⟨hcode, houtput⟩ := command.run_congr hasked hasks name source text
  rw [hcode, houtput]
  let log := logText (before.verbosity + behind.verbosity) ⟨source, text⟩
  refine ⟨log ++ (command.run behind ⟨source, text⟩).errorOutput, ?_⟩
  simp only [execute, hargs, hread, pure_bind]
  rfl

end Run

lemma exists_ok_of_bind {α β : Type} {x : Except UsageError α} {f : α → Except UsageError β}
    {b : β} (h : x >>= f = .ok b) : ∃ a, x = .ok a ∧ f a = .ok b := by
  cases x with
  | error e => cases h
  | ok a => exact ⟨a, rfl, h⟩

namespace Options

/-- The options name no source. -/
def Sourceless (o : Options) : Prop :=
  o.code? = none ∧ o.file? = none

/-- The options with a source in place of their own. -/
def place (o : Options) (code? file? : Option String) : Options :=
  { o with code? := code?, file? := file? }

/-- A reading that ends without a source began without one, and it goes the same way past a source
that is there from the beginning. -/
def PassesBy (read : Options → Except UsageError Options) : Prop :=
  ∀ o o', read o = .ok o' → o'.Sourceless →
    o.Sourceless ∧ ∀ code? file?, read (o.place code? file?) = .ok (o'.place code? file?)

namespace PassesBy

lemma ok : PassesBy .ok := by
  rintro o _ ⟨⟩ hnone
  exact ⟨hnone, fun _ _ => rfl⟩

lemma error (e : UsageError) : PassesBy fun _ => .error e := by
  rintro _ _ ⟨⟩

lemma bind {f g : Options → Except UsageError Options} (hf : PassesBy f) (hg : PassesBy g) :
    PassesBy fun o => f o >>= g := by
  intro o o' h hnone
  obtain ⟨middle, hmiddle, hlast⟩ := exists_ok_of_bind h
  obtain ⟨hmiddleNone, hpast⟩ := hg middle o' hlast hnone
  obtain ⟨hstart, hfirst⟩ := hf o middle hmiddle hmiddleNone
  refine ⟨hstart, fun code? file? => ?_⟩
  dsimp only
  rw [hfirst]
  exact hpast code? file?

lemma foldlM {α : Type} {f : Options → α → Except UsageError Options}
    (hf : ∀ a, PassesBy fun o => f o a) (items : List α) :
    PassesBy fun o => items.foldlM f o := by
  induction items with
  | nil => exact ok
  | cons item items ih => simpa only [List.foldlM_cons] using (hf item).bind ih

/-- An item that is no source does not look at the source. -/
lemma add (item : Item) : PassesBy fun o => o.add item := by
  intro o o' h hnone
  dsimp only at h ⊢
  obtain ⟨hcode, hfile⟩ := hnone
  revert h
  -- a refused item is out, and code or a file would be the source of what comes out
  fun_cases Options.add o item <;> rintro ⟨⟩
  case case8 => cases hcode
  case case14 => cases hfile
  all_goals
    refine ⟨⟨hcode, hfile⟩, fun code? file? => ?_⟩
    simp [Options.add, place, *]

end PassesBy

end Options

/-- An argument that is neither a value nor the end of the options is read by itself. -/
lemma readBehind_cons {command : Command} {arg : String} (hdashes : arg ≠ "--") (o : Options)
    (args : List String) :
    readBehind command o none (arg :: args) = readArgument (some command) arg >>= fun reading =>
      reading.1.foldlM Options.add o >>= fun after =>
        readBehind command after reading.2 args := by
  rw [readBehind, if_neg hdashes]

lemma readBehind_value {command : Command} {setting : Setting} {arg : String}
    (hvalue : mayBeValue arg = true) (o : Options) (args : List String) :
    readBehind command o (some setting) (arg :: args) =
      o.add (.setting setting arg) >>= fun after => readBehind command after none args := by
  rw [readBehind, if_pos hvalue]

/-- What stands behind a command is read in the same way past a source that is there already. -/
lemma passesBy_readBehind (command : Command) (pending? : Option Setting) (args : List String) :
    Options.PassesBy fun o => readBehind command o pending? args := by
  induction args generalizing pending? with
  | nil =>
    cases pending? with
    | none => exact .ok
    | some setting => exact .error _
  | cons arg args ih =>
    cases pending? with
    | some setting =>
      by_cases hvalue : mayBeValue arg = true
      · simpa only [readBehind_value hvalue] using (Options.PassesBy.add _).bind (ih none)
      · simpa only [readBehind, if_neg hvalue] using Options.PassesBy.error _
    | none =>
      by_cases hdashes : arg = "--"
      · simpa only [readBehind, if_pos hdashes] using
          Options.PassesBy.foldlM (fun file => .add (.word file)) args
      · simp only [readBehind_cons hdashes]
        cases readArgument (some command) arg with
        | error e => exact .error e
        | ok reading => exact (Options.PassesBy.foldlM .add reading.1).bind (ih reading.2)

/-- Arguments that are complete, and do not end the options, are read in front of others as if
they stood alone. -/
lemma readBehind_append {command : Command} {o o' : Options} {pending? : Option Setting}
    {front : List String} (h : readBehind command o pending? front = .ok o') (hfront : "--" ∉ front)
    (args : List String) :
    readBehind command o pending? (front ++ args) = readBehind command o' none args := by
  induction front generalizing o pending? with
  | nil =>
    cases pending? with
    | none =>
      cases h
      rfl
    | some setting => cases h
  | cons arg front ih =>
    have hdashes : arg ≠ "--" := fun heq => hfront (heq ▸ List.mem_cons_self)
    have hrest : "--" ∉ front := fun hmem => hfront (List.mem_cons_of_mem arg hmem)
    rw [List.cons_append]
    cases pending? with
    | some setting =>
      by_cases hvalue : mayBeValue arg = true
      · rw [readBehind_value hvalue] at h ⊢
        obtain ⟨after, hadd, hbehind⟩ := exists_ok_of_bind h
        rw [hadd]
        exact ih hbehind hrest
      · rw [readBehind, if_neg hvalue] at h
        cases h
    | none =>
      rw [readBehind_cons hdashes] at h ⊢
      obtain ⟨reading, hreading, hitems⟩ := exists_ok_of_bind h
      obtain ⟨after, hadd, hbehind⟩ := exists_ok_of_bind hitems
      simp only [hreading]
      change (reading.1.foldlM Options.add o >>= fun after => _) = _
      rw [hadd]
      exact ih hbehind hrest

/-! ### Spellings of a source -/

/-- The ways to give code among the arguments of a command. An argument of its own may not begin
with a dash unless it is one, and behind the letter an equals sign is not part of the code. -/
inductive SpellsCode (code : String) : List String → Prop where
  | letter (h : code.toList.head? ≠ some '-' ∨ code = "-") : SpellsCode code ["-e", code]
  | letterAttached (hne : code ≠ "") (h : code.toList.head? ≠ some '=') :
      SpellsCode code ["-e" ++ code]
  | letterEquals : SpellsCode code ["-e=" ++ code]
  | long (h : code.toList.head? ≠ some '-' ∨ code = "-") : SpellsCode code ["--eval", code]
  | longEquals : SpellsCode code ["--eval=" ++ code]

/-- The ways to have a command read a text: as code, from a file that holds it, or from standard
input. -/
inductive Spells {m : Type → Type} [Monad m] (host : Host m) (text : String) :
    List String → Prop where
  | code {spelling : List String} (h : SpellsCode text spelling) : Spells host text spelling
  | file {name : String} (hne : name ≠ "") (hdash : name.toList.head? ≠ some '-')
      (h : host.file name = pure (.ok text.toUTF8)) : Spells host text [name]
  | dash (h : host.input = pure (.ok text.toUTF8)) : Spells host text ["-"]
  | omitted (h : host.input = pure (.ok text.toUTF8)) : Spells host text []

lemma mayBeValue_of {text : String} (h : text.toList.head? ≠ some '-' ∨ text = "-") :
    mayBeValue text = true := by
  rcases h with h | h
  · simp [mayBeValue, h]
  · simp [mayBeValue, h]

/-- An argument without a dash in front is a word, and so is a dash by itself. -/
lemma readArgument_word (level : Option Command) {arg : String}
    (h : arg.toList.head? ≠ some '-' ∨ arg = "-") :
    readArgument level arg = .ok ([.word arg], none) := by
  rcases h with h | rfl
  · unfold readArgument
    split
    next hchars => simp [hchars] at h
    next hchars => simp [hchars] at h
    next => rfl
  · rfl

lemma readArgument_letters (level : Option Command) {arg : String} {c : Char} {cs : List Char}
    (h : arg.toList = '-' :: c :: cs) (hc : c ≠ '-') :
    readArgument level arg = readLetters level (c :: cs) := by
  unfold readArgument
  rw [h]
  split
  next heq => exact absurd (List.cons.inj (List.cons.inj heq).2).1 hc
  next heq => rw [(List.cons.inj heq).2]
  next hother => exact absurd rfl (hother c cs)

lemma readArgument_dashes (level : Option Command) {arg : String} {cs : List Char}
    (h : arg.toList = '-' :: '-' :: cs) : readArgument level arg = readLong level cs := by
  simp only [readArgument, h]

section Code

variable {command : Command} (hcommand : command ≠ .demo)
include hcommand

/-- Behind the letter of the option for code stands the code, or it is the next argument. -/
lemma readLetters_eval (cs : List Char) :
    readLetters (some command) ('e' :: cs) =
      match cs with
      | [] => .ok ([], some .eval)
      | '=' :: value => .ok ([.setting .eval (String.ofList value)], none)
      | value => .ok ([.setting .eval (String.ofList value)], none) := by
  cases command with
  | demo => exact absurd rfl hcommand
  | parse | tokens => rfl

/-- Behind the name of the option for code and an equals sign stands the code. -/
lemma readLong_eval (value : List Char) :
    readLong (some command) ("eval=".toList ++ value) =
      .ok ([.setting .eval (String.ofList value)], none) := by
  have htake : ("eval=".toList ++ value).takeWhile (· != '=') = "eval".toList := rfl
  have hdrop : ("eval=".toList ++ value).dropWhile (· != '=') = '=' :: value := rfl
  simp only [readLong, htake, hdrop]
  cases command with
  | demo => exact absurd rfl hcommand
  | parse | tokens => rfl

lemma readArgument_letterAttached {text : String} (hne : text ≠ "")
    (h : text.toList.head? ≠ some '=') :
    readArgument (some command) ("-e" ++ text) = .ok ([.setting .eval text], none) := by
  have hchars : ("-e" ++ text).toList = '-' :: 'e' :: text.toList := String.toList_append
  rw [readArgument_letters (some command) hchars (by decide), readLetters_eval hcommand]
  split
  next hnil => exact absurd (String.toList_eq_nil_iff.1 hnil) hne
  next hequals => simp [hequals] at h
  next => rw [String.ofList_toList]

lemma readArgument_letterEquals (text : String) :
    readArgument (some command) ("-e=" ++ text) = .ok ([.setting .eval text], none) := by
  have hchars : ("-e=" ++ text).toList = '-' :: 'e' :: '=' :: text.toList := String.toList_append
  rw [readArgument_letters (some command) hchars (by decide), readLetters_eval hcommand]
  simp only [String.ofList_toList]

lemma readArgument_longEquals (text : String) :
    readArgument (some command) ("--eval=" ++ text) = .ok ([.setting .eval text], none) := by
  have hchars : ("--eval=" ++ text).toList = '-' :: '-' :: ("eval=".toList ++ text.toList) :=
    String.toList_append
  rw [readArgument_dashes (some command) hchars, readLong_eval hcommand, String.ofList_toList]

end Code

namespace Options

variable {o : Options}

lemma Sourceless.add_eval (h : o.Sourceless) (code : String) :
    o.add (.setting .eval code) = .ok (o.place (some code) none) := by
  obtain ⟨hcode, hfile⟩ := h
  simp [Options.add, place, hcode, hfile]

lemma Sourceless.add_word (h : o.Sourceless) {file : String} (hne : file ≠ "") :
    o.add (.word file) = .ok (o.place none (some file)) := by
  obtain ⟨hcode, hfile⟩ := h
  simp [Options.add, place, hcode, hfile, hne]

lemma Sourceless.place_none (h : o.Sourceless) : o.place none none = o := by
  obtain ⟨hcode, hfile⟩ := h
  cases o
  simp_all [place]

end Options

/-- An argument that makes up one item adds it. -/
lemma readBehind_item {command : Command} {arg : String} {item : Item} (hdashes : arg ≠ "--")
    (h : readArgument (some command) arg = .ok ([item], none)) {o after : Options}
    (hadd : o.add item = .ok after) (args : List String) :
    readBehind command o none (arg :: args) = readBehind command after none args := by
  rw [readBehind_cons hdashes, h]
  change (List.foldlM Options.add o [item] >>= fun after => _) = _
  rw [List.foldlM_cons, hadd]
  rfl

/-- An option without its value takes the next argument. -/
lemma readBehind_pending {command : Command} {arg value : String} {setting : Setting}
    (hdashes : arg ≠ "--") (h : readArgument (some command) arg = .ok ([], some setting))
    (hvalue : mayBeValue value = true) {o after : Options}
    (hadd : o.add (.setting setting value) = .ok after) (args : List String) :
    readBehind command o none (arg :: value :: args) = readBehind command after none args := by
  rw [readBehind_cons hdashes, h]
  change readBehind command o (some setting) (value :: args) = _
  rw [readBehind_value hvalue, hadd]
  rfl

/-- Every spelling of code adds the code. -/
lemma SpellsCode.readBehind_eq {code : String} {spelling : List String}
    (h : SpellsCode code spelling) {command : Command} (hcommand : command ≠ .demo)
    {o after : Options} (hadd : o.add (.setting .eval code) = .ok after) (args : List String) :
    readBehind command o none (spelling ++ args) = readBehind command after none args := by
  cases h with
  | letter h =>
    have hread : readArgument (some command) "-e" = .ok ([], some .eval) :=
      readLetters_eval hcommand []
    exact readBehind_pending (by decide) hread (mayBeValue_of h) hadd args
  | letterAttached hne h =>
    have hread := readArgument_letterAttached hcommand hne h
    exact readBehind_item (ne_of_apply_ne String.toList (by simp)) hread hadd args
  | letterEquals =>
    have hread := readArgument_letterEquals hcommand code
    exact readBehind_item (ne_of_apply_ne String.toList (by simp)) hread hadd args
  | long h =>
    have hread : readArgument (some command) "--eval" = .ok ([], some .eval) := by
      cases command with
      | demo => exact absurd rfl hcommand
      | parse | tokens => rfl
    exact readBehind_pending (by decide) hread (mayBeValue_of h) hadd args
  | longEquals =>
    have hread := readArgument_longEquals hcommand code
    exact readBehind_item (ne_of_apply_ne String.toList (by simp)) hread hadd args

/-- Only a path with a dash in front can name standard input. -/
lemma head?_of_isStandardInput {file : String} (h : isStandardInput file = true) :
    file.toList.head? = some '-' := by
  unfold isStandardInput at h
  cases hchars : file.toList with
  | nil =>
    rw [hchars] at h
    cases h
  | cons c cs =>
    rw [hchars] at h
    by_cases hslash : c = '/'
    · simp [splitSlashes, hslash] at h
    · simp only [splitSlashes, if_neg hslash] at h
      cases hparts : splitSlashes cs <;> simp_all

/-- A spelling is read as its source, put in place. -/
lemma Spells.readBehind_eq {m : Type → Type} [Monad m] {host : Host m} {text : String}
    {spelling : List String} (h : Spells host text spelling) {command : Command}
    (hcommand : command ≠ .demo) :
    ∃ code? file?, Delivers host text code? file? ∧ (code? = none ∨ file? = none) ∧
      ∀ o : Options, o.Sourceless → ∀ args,
        readBehind command o none (spelling ++ args) =
          readBehind command (o.place code? file?) none args := by
  cases h with
  | code h =>
    refine ⟨some text, none, .code none, .inr rfl, fun o ho args => ?_⟩
    exact h.readBehind_eq hcommand (ho.add_eval text) args
  | @file name hne hdash h =>
    have hinput : isStandardInput name = false :=
      Bool.eq_false_iff.2 fun hinput => hdash (head?_of_isStandardInput hinput)
    refine ⟨none, some name, .file hinput h, .inl rfl, fun o ho args => ?_⟩
    have hdashes : name ≠ "--" := by
      rintro rfl
      exact hdash rfl
    exact readBehind_item hdashes (readArgument_word _ (.inl hdash)) (ho.add_word hne) args
  | dash h =>
    refine ⟨none, some "-", .dash (by decide) h, .inl rfl, fun o ho args => ?_⟩
    have hread := readArgument_word (some command) (.inr rfl)
    exact readBehind_item (by decide) hread (ho.add_word (by decide)) args
  | omitted h =>
    refine ⟨none, none, .omitted h, .inl rfl, fun o ho args => ?_⟩
    rw [ho.place_none, List.nil_append]

/-! ### Frames -/

/-- Letters make up options only. -/
lemma word_notMem_of_readLetters {level : Option Command} {cs : List Char} {items : List Item}
    {pending? : Option Setting} (h : readLetters level cs = .ok (items, pending?)) (text : String) :
    .word text ∉ items := by
  fun_induction readLetters level cs generalizing items pending? with
  | case1 | case3 | case5 | case6 | case7 =>
    cases h
    simp
  | case2 => cases h
  | case4 c cs flag _ _ ih =>
    obtain ⟨⟨rest, next?⟩, hrest, hitems⟩ := exists_ok_of_bind h
    cases hitems
    simpa using ih hrest

lemma word_notMem_of_readLong {level : Option Command} {cs : List Char} {items : List Item}
    {pending? : Option Setting} (h : readLong level cs = .ok (items, pending?)) (text : String) :
    .word text ∉ items := by
  unfold readLong at h
  dsimp only at h
  split at h <;> cases h <;> simp

/-- An argument with a dash in front does not name a command. -/
lemma ofName?_of_readArgument {level : Option Command} {arg name : String}
    {pending? : Option Setting} (hdash : arg.toList.head? = some '-')
    (h : readArgument level arg = .ok ([.word name], pending?)) : Command.ofName? name = none := by
  unfold readArgument at h
  split at h
  next => exact absurd List.mem_cons_self (word_notMem_of_readLong h name)
  next => exact absurd List.mem_cons_self (word_notMem_of_readLetters h name)
  next hlong hletters =>
    cases h
    cases hchars : arg.toList with
    | nil => simp [hchars] at hdash
    | cons c cs =>
      obtain rfl : c = '-' := by simpa [hchars] using hdash
      cases cs with
      | nil =>
        obtain rfl : arg = "-" := String.toList_injective hchars
        rfl
      | cons d ds => exact absurd hchars (hletters d ds)

/-- A command's name is a word that does not begin with a dash. -/
lemma head?_of_ofName? {name : String} {command : Command}
    (h : Command.ofName? name = some command) : name.toList.head? ≠ some '-' := by
  have hname : name = "parse" ∨ name = "tokens" ∨ name = "demo" := by
    grind [Command.ofName?]
  rcases hname with rfl | rfl | rfl <;> decide

/-- The options behind a command, once all of them are read. -/
def readChecked (command : Command) (args : List String) : Except UsageError Options :=
  readBehind command {} none args >>= fun behind => behind.check command

lemma readBefore_command {name : String} {command : Command}
    (hname : Command.ofName? name = some command) (o : Options) (args : List String) :
    readBefore o (name :: args) = (readChecked command args).map (.run command o) := by
  have hhead := head?_of_ofName? hname
  have hdashes : name ≠ "--" := by
    rintro rfl
    exact hhead rfl
  rw [readBefore, if_neg hdashes, readArgument_word none (.inl hhead)]
  simp only [bind, Except.bind, hname, readChecked]
  cases readBehind command {} none args with
  | error e => rfl
  | ok behind =>
    dsimp only
    cases behind.check command <;> rfl

/-- A flag in front of a command is read for itself, unless the run ends with it. -/
lemma readBefore_flag {arg : String} (hdash : arg.toList.head? = some '-')
    {o before behind : Options} {command : Command} {args : List String}
    (h : readBefore o (arg :: args) = .ok (.run command before behind)) :
    ∃ after, ∀ args', readBefore o (arg :: args') = readBefore after args' := by
  rw [readBefore] at h
  split at h
  next => cases h
  next hdashes =>
    obtain ⟨⟨items, pending?⟩, hread, hitems⟩ := exists_ok_of_bind h
    split at hitems
    next word pending? heq =>
      cases heq
      rw [ofName?_of_readArgument hdash hread] at hitems
      cases hitems
    next items pending? hword heq =>
      cases heq
      split at hitems
      next => cases hitems
      next hversion =>
        obtain ⟨after, hadd, -⟩ := exists_ok_of_bind hitems
        refine ⟨after, fun args' => ?_⟩
        rw [readBefore, if_neg hdashes, hread]
        simp only [bind, Except.bind, if_neg hversion] at hadd ⊢
        rw [hadd]

/-- The flags in front of a command are read for themselves: of what stands behind the command
they see nothing. -/
lemma readBefore_append {name : String} {command : Command}
    (hname : Command.ofName? name = some command) {flags args : List String}
    (hflags : ∀ arg ∈ flags, arg.toList.head? = some '-') {o before behind : Options}
    (h : readBefore o (flags ++ name :: args) = .ok (.run command before behind)) :
    readChecked command args = .ok behind ∧ ∀ args',
      readBefore o (flags ++ name :: args') =
        (readChecked command args').map (.run command before) := by
  induction flags generalizing o with
  | nil =>
    rw [List.nil_append, readBefore_command hname] at h
    cases hchecked : readChecked command args with
    | error e =>
      rw [hchecked] at h
      cases h
    | ok checked =>
      rw [hchecked] at h
      cases h
      exact ⟨rfl, readBefore_command hname before⟩
  | cons arg flags ih =>
    rw [List.cons_append] at h
    obtain ⟨after, hafter⟩ := readBefore_flag (hflags arg List.mem_cons_self) h
    rw [hafter] at h
    obtain ⟨hchecked, hall⟩ := ih (fun arg hmem => hflags arg (List.mem_cons_of_mem _ hmem)) h
    exact ⟨hchecked, fun args' => (hafter _).trans (hall args')⟩

lemma Options.check_eq {o : Options} (h : o.code? = none ∨ o.file? = none) {command : Command}
    (hcommand : command ≠ .demo) : o.check command = .ok o := by
  unfold Options.check
  split
  next => rfl
  next => exact absurd rfl hcommand
  next file _ hfile =>
    rcases h with hcode | hnone
    · simp [hcode]
    · simp [hfile] at hnone

lemma Options.eq_of_check {o o' : Options} {command : Command} (h : o.check command = .ok o') :
    o' = o := by
  unfold Options.check at h
  split at h
  next => cases h; rfl
  next => cases h
  next => split at h <;> cases h; rfl

/-- Arguments that leave the source of a command open: flags, its name, and behind it two rows of
options, with room for a source between them. -/
structure Frame (command : Command) where
  flags : List String
  name : String
  front : List String
  back : List String
  before : Options
  behind : Options
  takesSource : command ≠ .demo
  flags_dash : ∀ arg ∈ flags, arg.toList.head? = some '-'
  ofName?_name : Command.ofName? name = some command
  front_open : "--" ∉ front
  front_complete : ∃ o, readBehind command {} none front = .ok o
  accepted : readArguments (flags ++ name :: (front ++ back)) = .ok (.run command before behind)
  sourceless : behind.Sourceless

namespace Frame

variable {command : Command} (frame : Frame command)

/-- The arguments with a source in the room that is left for it. -/
def fill (spelling : List String) : List String :=
  frame.flags ++ frame.name :: (frame.front ++ (spelling ++ frame.back))

/-- A frame is accepted with every spelling of a source, and asks for the same run. -/
lemma readArguments_fill {m : Type → Type} [Monad m] {host : Host m} {text : String}
    {spelling : List String} (h : Spells host text spelling) :
    ∃ code? file?, Delivers host text code? file? ∧
      readArguments (frame.fill spelling) =
        .ok (.run command frame.before (frame.behind.place code? file?)) := by
  obtain ⟨hchecked, hall⟩ :=
    readBefore_append frame.ofName?_name frame.flags_dash frame.accepted
  obtain ⟨behind, hbehind, hcheck⟩ := exists_ok_of_bind hchecked
  obtain rfl := Options.eq_of_check hcheck
  obtain ⟨first, hfront⟩ := frame.front_complete
  rw [readBehind_append hfront frame.front_open] at hbehind
  obtain ⟨hfirst, hpast⟩ :=
    passesBy_readBehind command none frame.back first _ hbehind frame.sourceless
  obtain ⟨code?, file?, hdelivers, hone, hread⟩ := h.readBehind_eq frame.takesSource
  refine ⟨code?, file?, hdelivers, ?_⟩
  have hfilled : readBehind command {} none (frame.front ++ (spelling ++ frame.back)) =
      .ok (frame.behind.place code? file?) := by
    rw [readBehind_append hfront frame.front_open, hread first hfirst]
    exact hpast code? file?
  rw [readArguments, fill, hall, readChecked, hfilled]
  change ((frame.behind.place code? file?).check command).map _ = _
  rw [Options.check_eq hone frame.takesSource]
  rfl

end Frame

lemma head?_repr_ne (limit : Nat) {c : Char} (hc : c.isDigit = false) :
    (Nat.repr limit).toList.head? ≠ some c := by
  intro h
  have hmem : c ∈ Nat.toDigits 10 limit := by
    rw [Nat.repr, String.toList_ofList] at h
    exact List.mem_of_mem_head? h
  rw [(isWhole_toDigits limit).digits c hmem] at hc
  cases hc

/-- Every limit of at most 64 bits can be written. -/
lemma limitOfText?_repr {limit : Nat} (h : limit < UInt64.size) :
    limitOfText? (Nat.repr limit) = some limit := by
  have hplus := head?_repr_ne limit (show '+'.isDigit = false from rfl)
  unfold limitOfText?
  dsimp only
  split
  next cs hchars => simp [hchars] at hplus
  next =>
    have hwhole := isWhole_toDigits limit
    have hall : (Nat.toDigits 10 limit).all Char.isDigit = true :=
      List.all_eq_true.2 hwhole.digits
    have hvalue : (Nat.toDigits 10 limit).foldl (fun n c => 10 * n + (c.toNat - '0'.toNat)) 0 =
        limit := digitsValue_toDigits limit
    rw [Nat.repr, String.toList_ofList]
    simp only [hvalue, hall, if_pos h, List.isEmpty_eq_false_iff.2 hwhole.ne_nil]
    rfl

/-- The frame of a run of `parse` with a layout and a limit. -/
def Frame.ofLimit (compact : Bool) {limit : Nat} (h : limit < UInt64.size) : Frame .parse where
  flags := []
  name := "parse"
  front := if compact then ["--compact"] else []
  back := ["--max-depth", Nat.repr limit]
  before := {}
  behind := { compact := compact, limit? := some limit }
  takesSource := by decide
  flags_dash := by simp
  ofName?_name := rfl
  front_open := by cases compact <;> decide
  front_complete := by cases compact <;> exact ⟨_, rfl⟩
  accepted := by
    have hvalue : mayBeValue (Nat.repr limit) = true :=
      mayBeValue_of (.inl (head?_repr_ne limit rfl))
    have hadd : ({ compact := compact } : Options).add (.setting .maxDepth (Nat.repr limit)) =
        .ok { compact := compact, limit? := some limit } := by
      simp [Options.add, limitOfText?_repr h]
    have hfront : readBehind .parse {} none (if compact then ["--compact"] else []) =
        .ok { compact := compact } := by
      cases compact <;> rfl
    have hopen : "--" ∉ (if compact then ["--compact"] else []) := by
      cases compact <;> decide
    have hback : readBehind .parse { compact := compact } none ["--max-depth", Nat.repr limit] =
        .ok { compact := compact, limit? := some limit } :=
      readBehind_pending (by decide) rfl hvalue hadd []
    rw [List.nil_append, readArguments, readBefore_command rfl, readChecked,
      readBehind_append hfront hopen, hback]
    rfl
  sourceless := ⟨rfl, rfl⟩

/-! ### All or nothing, from every channel -/

/-- For a command that takes a source, a text, a layout and a limit there is one exit code and one
output. The code is 0 exactly if the text has a result, which is then written whole; else it is 1
and nothing is written. Every run that is accepted and reads this text ends so, whichever channel it
reads from, and a frame of arguments that asks for the layout and the limit is accepted with every
spelling of a source. Each limit of 64 bits can be asked for. -/
theorem answers_of_channel (command : Command) (hcommand : command ≠ .demo) (compact : Bool)
    (limit : Nat) (text : String) :
    ∃ code output, command.Answers compact limit text code output ∧
      (∀ {m : Type → Type} [Monad m] [LawfulMonad m] (host : Host m),
        (∀ args before behind, readArguments args = .ok (.run command before behind) →
          behind.AsksFor compact limit → Delivers host text behind.code? behind.file? →
          ∃ errors, execute host args = pure ⟨code, output, errors⟩) ∧
        (∀ frame : Frame command, frame.behind.AsksFor compact limit →
          ∀ spelling, Spells host text spelling →
          ∃ errors, execute host (frame.fill spelling) = pure ⟨code, output, errors⟩)) ∧
      (limit < UInt64.size → ∃ frame : Frame .parse, frame.behind.AsksFor compact limit) := by
  let asked : Options := { compact := compact, limit? := some limit }
  have hasked : asked.AsksFor compact limit := ⟨rfl, rfl⟩
  refine ⟨_, _, command.run_answers hasked ⟨"", text⟩, fun host => ⟨?_, ?_⟩, fun h => ?_⟩
  · intro args before behind hargs hasks hdelivers
    exact execute_of_delivers hcommand hargs hasks hasked hdelivers ""
  · intro frame hasks spelling hspells
    obtain ⟨code?, file?, hdelivers, hargs⟩ := frame.readArguments_fill hspells
    exact execute_of_delivers hcommand hargs hasks hasked hdelivers ""
  · exact ⟨.ofLimit compact h, rfl, rfl⟩

/-- A host of files and of a text for standard input. -/
def Host.table (files : List (String × String)) (input : String) : Host Id where
  file name :=
    match files.lookup name with
    | some text => .ok text.toUTF8
    | none => .error fileNotFound
  input := .ok input.toUTF8

/-- A host with a text in a file, and the same text for standard input. -/
def Host.holding (text : String) : Host Id :=
  .table [("a.js", text)] text

/-- A run ends with an exit code and an output, whatever it logs. -/
def Host.Ends (host : Host Id) (args : List String) (code : UInt8) (output : String) : Prop :=
  ∃ errors, execute host args = ⟨code, output, errors⟩

/-- Ways to give a command the text that a host holds. -/
def channels (text : String) : List (List String) :=
  [["-e", text], ["--eval=" ++ text], ["a.js"], ["-"], []]

lemma spells_of_mem_channels {text : String} (hdash : text.toList.head? ≠ some '-') :
    ∀ spelling ∈ channels text, Spells (.holding text) text spelling := by
  have hfile : (Host.holding text).file "a.js" = pure (.ok text.toUTF8) := rfl
  have hinput : (Host.holding text).input = pure (.ok text.toUTF8) := rfl
  intro spelling hspelling
  simp only [channels, List.mem_cons, List.not_mem_nil, or_false] at hspelling
  rcases hspelling with rfl | rfl | rfl | rfl | rfl
  · exact .code (.letter (.inl hdash))
  · exact .code .longEquals
  · exact .file (by decide) (by decide) hfile
  · exact .dash hinput
  · exact .omitted hinput

/-- The frame of a run of `tokens` with an option on either side of the source. -/
def Frame.ofLog : Frame .tokens where
  flags := ["-v"]
  name := "tokens"
  front := []
  back := ["--log-json"]
  before := { verbosity := 1 }
  behind := { logJson := true }
  takesSource := by decide
  flags_dash := by decide
  ofName?_name := rfl
  front_open := by decide
  front_complete := ⟨_, rfl⟩
  accepted := rfl
  sourceless := ⟨rfl, rfl⟩

lemma ends_of_one {text : String} (hdash : text.toList.head? ≠ some '-') {command : Command}
    {frame : Frame command} {code code' : UInt8} {output output' : String}
    (hall : ∀ spelling, Spells (.holding text) text spelling →
      ∃ errors, execute (.holding text) (frame.fill spelling) = pure ⟨code, output, errors⟩)
    (hcode : (execute (.holding text) (frame.fill ["-e", text])).exitCode = code')
    (houtput : (execute (.holding text) (frame.fill ["-e", text])).output = output') :
    ∀ spelling ∈ channels text, (Host.holding text).Ends (frame.fill spelling) code' output' := by
  have hspells := spells_of_mem_channels hdash
  obtain ⟨errors, hone⟩ := hall ["-e", text] (hspells _ List.mem_cons_self)
  rw [hone] at hcode houtput
  subst hcode houtput
  exact fun spelling hspelling => hall spelling (hspells spelling hspelling)

/-- A list is shown whole, in both layouts and token by token, in whatever way it is given. A
character that no rule reads leaves nothing of a listing, not even the row of the token in front. -/
theorem answers_of_empty_list_and_stray_sign :
    Command.parse ≠ .demo ∧ Command.tokens ≠ .demo ∧
    (∀ spelling ∈ channels "[]",
      (Host.holding "[]").Ends ("parse" :: "--compact" :: (spelling ++ ["--max-depth", "9"])) 0
        ("\x7b\"type\":\"Program\",\"body\":" ++
          "[\x7b\"type\":\"ArrayLiteral\",\"elements\":[]\x7d]\x7d\n")) ∧
    (∀ spelling ∈ channels "[]",
      (Host.holding "[]").Ends ("parse" :: (spelling ++ ["--max-depth", "9"])) 0
        ("\x7b\n  \"type\": \"Program\",\n  \"body\": [\n    \x7b\n" ++
          "      \"type\": \"ArrayLiteral\",\n      \"elements\": []\n    \x7d\n  ]\n\x7d\n")) ∧
    (∀ spelling ∈ channels "[]",
      (Host.holding "[]").Ends ("-v" :: "tokens" :: (spelling ++ ["--log-json"])) 0
        "LBracket\t[\nRBracket\t]\nEndOfFile\t\n") ∧
    (∀ spelling ∈ channels "a @",
      (Host.holding "a @").Ends ("-v" :: "tokens" :: (spelling ++ ["--log-json"])) 1 "") ∧
    (Host.holding "a @").Ends ["tokens", "--", "a.js"] 1 "" := by
  have hparse : Command.parse ≠ .demo := by decide
  have htokens : Command.tokens ≠ .demo := by decide
  have hends : ∀ {command : Command} (_ : command ≠ .demo) (frame : Frame command) {text : String}
      (_ : text.toList.head? ≠ some '-') {code : UInt8} {output : String},
      (execute (.holding text) (frame.fill ["-e", text])).exitCode = code →
      (execute (.holding text) (frame.fill ["-e", text])).output = output →
      ∀ spelling ∈ channels text, (Host.holding text).Ends (frame.fill spelling) code output := by
    intro command hcommand frame text hdash code output hcode houtput
    obtain ⟨_, _, -, hruns, -⟩ := answers_of_channel command hcommand frame.behind.compact
      (frame.behind.limit?.getD defaultLimit) text
    exact ends_of_one hdash ((hruns (.holding text)).2 frame ⟨rfl, rfl⟩) hcode houtput
  refine ⟨hparse, htokens, ?_, ?_, ?_, ?_, ?_⟩
  · exact hends hparse (.ofLimit true (show 9 < UInt64.size by decide)) (by decide)
      (by decide +kernel) (by decide +kernel)
  · exact hends hparse (.ofLimit false (show 9 < UInt64.size by decide)) (by decide)
      (by decide +kernel) (by decide +kernel)
  · exact hends htokens .ofLog (by decide) (by decide +kernel) (by decide +kernel)
  · exact hends htokens .ofLog (by decide) (by decide +kernel) (by decide +kernel)
  · obtain ⟨code, output, hanswer, hruns, -⟩ :=
      answers_of_channel .tokens htokens false defaultLimit "a @"
    have hfault : tokenize "a @" = .error (.unsupportedCharacter '@' (.ofOffsets 2 3)) := by
      decide +kernel
    obtain ⟨rfl, rfl⟩ := hanswer.nothing _ hfault
    exact (hruns (.holding "a @")).1 ["tokens", "--", "a.js"] {} { file? := some "a.js" } rfl
      ⟨rfl, rfl⟩ (.file (by decide) rfl)

end ScriptTree
