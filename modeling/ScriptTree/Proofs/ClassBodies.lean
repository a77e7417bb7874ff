import ScriptTree.Proofs.Rescan
import ScriptTree.Proofs.Statements

/-!
# Class bodies are read back

A word in front of a member is a modifier, or the name of the member if what may stand behind a name
follows it. So `static` and `async` are modifiers where they are written as such, and names where
they are written as names, in every combination with each other, with a star and with `#`.

Main statement: `parse_of_writesClass`.
-/

namespace ScriptTree

open ScriptTree.Parser

/-- A word that may name a member: a plain name or a reserved word. -/
def NamesMember (name : String) : Prop :=
  ∃ kind, IsToken kind name ∧ (kind = .identifier ∨ kind.isKeyword = true)

/-- Something that is written only if a condition holds. -/
def writtenIf (flag : Bool) (text : String) : List String :=
  if flag then [text] else []

/-- A method behind its name: parameters in parentheses, and a block. -/
inductive WritesMethod : List Node → Node → List String → Prop where
  | method {params : List Node} {body : Node} {ts us : List String}
      (hparams : WritesRow WritesParameter params ts) (hbody : Writes true (.block body) us) :
      WritesMethod params body ("(" :: (ts ++ ")" :: us))

/-- The name of a member as a node. -/
def memberNode (isPrivate : Bool) (name : String) : Node :=
  if isPrivate then .privateName (.identifier name) else .identifier name

/-- The modifiers of a member with its name behind them. -/
def memberWritten (isStatic isAsync generator isPrivate : Bool) (name : String) : List String :=
  writtenIf isStatic "static" ++ (writtenIf isAsync "async" ++
    (writtenIf generator "*" ++ (writtenIf isPrivate "#" ++ [name])))

lemma memberWritten_length_pos (isStatic isAsync generator isPrivate : Bool) (name : String) :
    0 < (memberWritten isStatic isAsync generator isPrivate name).length := by
  simp [memberWritten]

/-- Members of a class. A semicolon may stand behind a method and has to stand behind a property. -/
inductive WritesMember : Node → List String → Prop where
  | method {isStatic isAsync generator isPrivate : Bool} {name : String} {params : List Node}
      {body : Node} {ts us : List String} (hname : NamesMember name)
      (h : WritesMethod params body ts) (hend : WritesEnd us) :
      WritesMember
        (.classMethodDefinition (memberNode isPrivate name) isStatic
          (if !isPrivate && name == "constructor" then .constructor else .method)
          (.functionExpression none generator isAsync params body))
        (memberWritten isStatic isAsync generator isPrivate name ++ (ts ++ us))
  | property {isStatic isPrivate : Bool} {name : String} {value : Option Node} {ts : List String}
      (hname : NamesMember name) (hvalue : WritesPerhaps WritesValue value ts) :
      WritesMember
        (if isPrivate then .classPrivateProperty (memberNode isPrivate name) value isStatic
          else .classProperty (memberNode isPrivate name) value isStatic)
        (memberWritten isStatic false false isPrivate name ++ (ts ++ [";"]))

/-- The name of the class that another one extends. -/
inductive WritesHeritage : Node → List String → Prop where
  | heritage {n : Node} {ts : List String} (h : WritesName n ts) :
      WritesHeritage n ("extends" :: ts)

/-- A class with its members in braces. -/
inductive WritesClass : Node → List String → Prop where
  | declaration {id : Node} {superClass : Option Node} {members : List Node} {ts us : List String}
      {written : List (List String)} (hid : WritesName id ts)
      (hsuper : WritesPerhaps WritesHeritage superClass us)
      (hmembers : List.Forall₂ WritesMember members written) :
      WritesClass (.classDeclaration id superClass (.classBody members))
        ("class" :: (ts ++ (us ++ "\x7b" :: (written.flatten ++ ["\x7d"]))))

lemma NamesMember.kind {name : String} (h : NamesMember name) :
    kindOf name = .identifier ∨ (kindOf name).isKeyword = true := by
  obtain ⟨kind, htoken, hkind⟩ := h
  rwa [kindOf_of_first? (isWord_of_isToken htoken hkind).2]

lemma NamesMember.kind_facts {name : String} (h : NamesMember name) :
    endsMemberName (kindOf name) = false ∧ kindOf name ≠ .hash ∧ kindOf name ≠ .multiplicative := by
  have hkind := h.kind
  revert hkind
  cases kindOf name <;> decide

/-- The name of a member is read back in front of a mark other than a star. -/
lemma NamesMember.legible {name next : String} {texts : List String} (h : NamesMember name)
    (hnext : ¬['*'] <+: next.toList) (hrest : Legible (next :: texts)) :
    Legible (name :: next :: texts) := by
  obtain ⟨kind, htoken, hkind⟩ := h
  by_cases hword : name = "function"
  · rw [hword]
    exact .function hnext hrest
  · exact .cons (onLine_of_isToken htoken hkind hword).2 hrest

lemma kindOf_static : kindOf "static" = .kwStatic := by
  decide +kernel

lemma kindOf_class : kindOf "class" = .kwClass := by
  decide +kernel

lemma kindOf_extends : kindOf "extends" = .kwExtends := by
  decide +kernel

lemma kindOf_star : kindOf "*" = .multiplicative := by
  decide +kernel

lemma kindOf_hash : kindOf "#" = .hash :=
  congrArg Prod.fst lexemeOf_hash

lemma onLine_classWord : ∀ text ∈ ["static", "class", "extends"], OnLine text := by
  have hall : ∀ text ∈ ["static", "class", "extends"], IsPlain text.toList ∧
      "function".toList.isPrefixOf text.toList = false ∧
      Rule.first? text.toList = some (some (kindOf text), text.toList.length) := by
    decide +kernel
  intro text htext
  obtain ⟨hplain, hne, hrule⟩ := hall text htext
  exact onLine_of_isPlain hplain hne hrule

section Modifiers

variable {c : Context} {ls rest : List (Kind × String)} {kind : Kind} {text name : String}
  {ends : Kind → Bool} {flag : Bool}

/-- A word of a kind ahead, if there is one, is not a modifier but a name. -/
def NoModifier (ends : Kind → Bool) (kind : Kind) (ls : List (Kind × String)) : Prop :=
  headKind ls = kind → ∃ text tail, ls = (kind, text) :: tail ∧ ends (headKind tail) = true

lemma headKind_writtenIf :
    headKind (lexemesBefore (writtenIf flag text) ls) = if flag then kindOf text else headKind ls := by
  cases flag <;> rfl

lemma NoModifier.behind (h : NoModifier ends kind ls) (hne : kindOf text ≠ kind) :
    NoModifier ends kind (lexemesBefore (writtenIf flag text) ls) := by
  cases flag with
  | false => exact h
  | true => exact fun hkind => absurd hkind hne

lemma NoModifier.of_name (hends : ends (headKind ls) = true) :
    NoModifier ends kind ((kindOf name, name) :: ls) := by
  rintro rfl
  exact ⟨name, ls, rfl, hends⟩

/-- A modifier is consumed if it is written, and a name of the same spelling is left. -/
lemma acceptUnless_takes (htext : kindOf text = kind) (hends : ends (headKind ls) = false)
    (hname : NoModifier ends kind ls) :
    Takes (acceptUnless kind ends) c (lexemesBefore (writtenIf flag text) ls) flag ls := by
  intro r hr
  rw [acceptUnless_run]
  cases flag with
  | true =>
    obtain ⟨token, after, hnext, hafter⟩ := hr.next
    have hkind : r.lookahead.kind = kind := hr.kind_eq.trans htext
    have hgoes : ends token.kind = false := hafter.kind_eq ▸ hends
    refine ⟨⟨token, after⟩, ?_, hafter⟩
    rw [if_pos hkind, hnext]
    simp [hgoes]
  | false =>
    refine ⟨r, ?_, hr⟩
    have hls : Stands r ls := hr
    by_cases hkind : r.lookahead.kind = kind
    · obtain ⟨word, tail, rfl, htail⟩ := hname (hls.kind_eq ▸ hkind)
      obtain ⟨token, after, hnext, hafter⟩ := hls.next
      have hstays : ends token.kind = true := by rw [hafter.kind_eq, htail]
      rw [if_pos hkind, hnext]
      simp [hstays]
    · rw [if_neg hkind]

lemma lookahead_takes {β : Type} {f : Token → Parser β} {b : β} {lexeme : Kind × String}
    (h : ∀ t : Token, t.lexeme = lexeme → Takes (f t) c (lexeme :: ls) b rest) :
    Takes (lookahead >>= f) c (lexeme :: ls) b rest :=
  fun r hr => h r.lookahead hr.lookahead.1 r hr

lemma acceptStar_takes (hne : headKind ls ≠ .multiplicative) :
    Takes acceptStar c (lexemesBefore (writtenIf flag "*") ls) flag ls := by
  cases flag with
  | true =>
    refine lookahead_takes fun t ht => ?_
    have hkind : t.kind = .multiplicative := (congrArg Prod.fst ht).trans kindOf_star
    have htext : t.text = "*" := congrArg Prod.snd ht
    rw [hkind, htext]
    exact Takes.advance_bind fun _ _ => Takes.pure true
  | false =>
    refine Takes.lookahead_bind fun t ht => ?_
    have hkind : t.kind ≠ .multiplicative := ht.trans_ne hne
    rw [if_neg (by simp [hkind])]
    exact Takes.pure false

lemma accept_takes (htext : kindOf text = kind) (hne : headKind ls ≠ kind) {β : Type}
    {f : Bool → Parser β} {b : β} (h : Takes (f flag) c ls b rest) :
    Takes (accept kind >>= f) c (lexemesBefore (writtenIf flag text) ls) b rest := by
  cases flag with
  | true => exact Takes.accept_mark htext h
  | false => exact Takes.accept_neg hne h

lemma memberKey_takes (hname : NamesMember name) :
    Takes memberKey c ((kindOf name, name) :: ls) name ls := by
  refine Takes.lookahead_bind fun t ht => ?_
  have hkind : (t.kind == .identifier || t.kind.isKeyword) = true := by
    rw [ht, headKind_cons, Bool.or_eq_true, beq_iff_eq]
    exact hname.kind
  rw [if_pos hkind]
  refine Takes.advance_bind fun u hu => ?_
  have htext : u.text = name := congrArg Prod.snd hu
  rw [htext]
  exact Takes.pure name

end Modifiers

section Methods

variable {params : List Node} {body : Node} {ts : List String} {n : Nat} {c : Context}

lemma WritesMethod.length (h : WritesMethod params body ts) : 0 < ts.length := by
  cases h
  exact Nat.succ_pos _

lemma WritesMethod.head (h : WritesMethod params body ts) (rest : List (Kind × String)) :
    headKind (lexemesBefore ts rest) = .lParen := by
  cases h
  exact kindOf_lParen

lemma WritesMethod.takes (h : WritesMethod params body ts) (generator isAsync : Bool)
    (hlevels : ts.length ≤ n) (hdepth : c.depth + ts.length ≤ c.limit)
    (rest : List (Kind × String)) :
    Takes ((Grammar.upTo n).method generator isAsync) c (lexemesBefore ts rest)
      (.functionExpression none generator isAsync params body) rest := by
  cases h with
  | @method ts us hparams hbody =>
    obtain ⟨⟨vs, hbrace⟩, hblock⟩ := hbody.reads
    have hus : 0 < us.length := hbrace ▸ Nat.succ_pos _
    simp only [List.length_cons, List.length_append] at hlevels hdepth
    simp only [lexemesBefore_cons, lexemesBefore_append]
    have hbody : Takes (Grammar.upTo n).functionBody c (lexemesBefore us rest) body rest :=
      hblock n { c with inFunction := true } rest
        ⟨by omega, by change c.depth + us.length ≤ c.limit; omega, fun _ => rfl⟩
    exact (hparams.parameters (by omega) (by omega) _).bind (hbody.bind (Takes.pure _))

end Methods

/-! ### Members -/

/-- The kinds with which a member begins. -/
def Kind.startsMember (kind : Kind) : Bool :=
  kind == .multiplicative || kind == .hash || kind == .identifier || kind.isKeyword

section Members

variable {c : Context} {n : Nat} {e : Node} {ts : List String} {rest : List (Kind × String)}

/-- The modifiers of a member and its name, in front of what may stand behind a name. -/
lemma memberWritten_takes {isStatic isAsync generator isPrivate : Bool} {name : String}
    (hname : NamesMember name) (hends : endsMemberName (headKind rest) = true) {β : Type}
    {f : Bool → Bool → Bool → Bool → String → Parser β} {b : β} {rest' : List (Kind × String)}
    (h : Takes (f isStatic isAsync generator isPrivate name) c rest b rest') :
    Takes (do
      let isStatic ← acceptModifier .kwStatic
      let isAsync ← acceptModifier .kwAsync
      let generator ← acceptStar
      let isPrivate ← accept .hash
      let name ← memberKey
      f isStatic isAsync generator isPrivate name) c
      (lexemesBefore (memberWritten isStatic isAsync generator isPrivate name) rest) b rest' := by
  let atName := (kindOf name, name) :: rest
  let atHash := lexemesBefore (writtenIf isPrivate "#") atName
  let atStar := lexemesBefore (writtenIf generator "*") atHash
  let atAsync := lexemesBefore (writtenIf isAsync "async") atStar
  have hfront : ∀ {flag : Bool} {text : String} {ls : List (Kind × String)},
      endsMemberName (kindOf text) = false → endsMemberName (headKind ls) = false →
        endsMemberName (headKind (lexemesBefore (writtenIf flag text) ls)) = false := by
    intro flag text ls htext hls
    cases flag <;> assumption
  have hword : endsMemberName (headKind atName) = false ∧ headKind atName ≠ .hash ∧
      headKind atName ≠ .multiplicative := hname.kind_facts
  have hhash : endsMemberName (headKind atHash) = false := hfront (by rw [kindOf_hash]; rfl) hword.1
  have hstar : endsMemberName (headKind atStar) = false := hfront (by rw [kindOf_star]; rfl) hhash
  have hasync : endsMemberName (headKind atAsync) = false :=
    hfront (by rw [kindOf_async]; rfl) hstar
  have hnoStar : headKind atHash ≠ .multiplicative := by
    cases isPrivate with
    | false => exact hword.2.2
    | true =>
      change kindOf "#" ≠ _
      rw [kindOf_hash]
      decide
  have hname' : ∀ kind, kind ≠ .hash → kind ≠ .multiplicative →
      NoModifier endsMemberName kind atStar := fun kind hne hne' =>
    ((NoModifier.of_name hends).behind (by rw [kindOf_hash]; exact hne.symm)).behind
      (by rw [kindOf_star]; exact hne'.symm)
  have hnoStatic : NoModifier endsMemberName .kwStatic atAsync :=
    (hname' _ (by decide) (by decide)).behind (by rw [kindOf_async]; decide)
  unfold memberWritten
  simp only [lexemesBefore_append, lexemesBefore_cons, lexemesBefore_nil]
  rw [acceptModifier_eq, acceptModifier_eq]
  refine (acceptUnless_takes kindOf_static hasync hnoStatic).bind ?_
  refine (acceptUnless_takes kindOf_async hstar (hname' _ (by decide) (by decide))).bind ?_
  refine (acceptStar_takes hnoStar).bind ?_
  exact accept_takes kindOf_hash hword.2.1 ((memberKey_takes hname).bind h)

/-- What stands behind the name of a property. -/
lemma classPropertyTail_takes {isStatic isPrivate : Bool} {key : Node} {value : Option Node}
    (hvalue : WritesPerhaps WritesValue value ts) (hlevels : 1 < n) (hdepth : c.depth < c.limit)
    (rest : List (Kind × String)) :
    Takes ((Grammar.upTo n).classPropertyTail isStatic isPrivate key) c
      (lexemesBefore (ts ++ [";"]) rest)
      (if isPrivate then .classPrivateProperty key value isStatic
        else .classProperty key value isStatic) rest := by
  obtain ⟨n, rfl⟩ : ∃ d, n = d + 1 := ⟨n - 1, by omega⟩
  have hsemicolon : kindOf ";" = .semicolon := kindOf_semicolon
  have hends : Ends 1 ((kindOf ";", ";") :: rest) :=
    ends_of_grip?_eq_none (by rw [headKind_cons, hsemicolon]; rfl)
  have hvalue : Takes (optionally .assignment ((Grammar.upTo (n + 1)).parse .assignment)) c
      (lexemesBefore ts ((kindOf ";", ";") :: rest)) value ((kindOf ";", ";") :: rest) := by
    cases hvalue with
    | absent => exact Takes.optionally_none (hends.ne rfl le_rfl)
    | present hvalue =>
      cases hvalue with
      | value hname =>
        exact Takes.optionally_mark kindOf_equals (hname.assignment (by omega) hdepth hends)
  rw [lexemesBefore_append]
  refine hvalue.bind (Takes.accept_mark kindOf_semicolon ?_)
  cases isPrivate <;> exact Takes.pure _

/-- A member is read up to the semicolon that may stand behind a method. -/
lemma WritesMember.takes (h : WritesMember e ts) :
    ∃ vs us, ts = vs ++ us ∧ 0 < vs.length ∧ WritesEnd us ∧ ∀ n c rest, ts.length ≤ n →
      c.depth + ts.length ≤ c.limit →
        Takes (Grammar.upTo n).classMember c (lexemesBefore vs rest) e rest := by
  cases h with
  | @method isStatic isAsync generator isPrivate name params body ts us hname hmethod hend =>
    have hlength := memberWritten_length_pos isStatic isAsync generator isPrivate name
    refine ⟨memberWritten isStatic isAsync generator isPrivate name ++ ts, us,
      (List.append_assoc _ _ _).symm, ?_, hend, fun n c rest hlevels hdepth => ?_⟩
    · rw [List.length_append]
      omega
    simp only [List.length_append] at hlevels hdepth
    rw [lexemesBefore_append]
    refine Takes.lookahead_bind fun t _ => memberWritten_takes hname ?_ ?_
    · rw [hmethod.head]
      rfl
    · exact Takes.sees_pos (hmethod.head rest)
        ((hmethod.takes generator isAsync (by omega) (by omega) rest).bind (Takes.pure _))
  | @property isStatic isPrivate name value ts hname hvalue =>
    have hlength := memberWritten_length_pos isStatic false false isPrivate name
    refine ⟨_, [], (List.append_nil _).symm, ?_, .absent, fun n c rest hlevels hdepth => ?_⟩
    · rw [List.length_append]
      omega
    simp only [List.length_append, List.length_cons] at hlevels hdepth
    have hends : headKind (lexemesBefore (ts ++ [";"]) rest) = .assignment ∨
        headKind (lexemesBefore (ts ++ [";"]) rest) = .semicolon := by
      rw [lexemesBefore_append]
      cases hvalue with
      | absent => exact Or.inr kindOf_semicolon
      | present hvalue =>
        cases hvalue
        exact Or.inl kindOf_equals
    rw [lexemesBefore_append]
    refine Takes.lookahead_bind fun t _ => memberWritten_takes hname ?_ ?_
    · rcases hends with hends | hends <;> rw [hends] <;> rfl
    · refine Takes.sees_neg ?_ ?_
      · rcases hends with hends | hends <;> rw [hends] <;> decide
      · exact classPropertyTail_takes hvalue (by omega) (by omega) rest

lemma memberWritten_head {isStatic isAsync generator isPrivate : Bool} {name : String}
    (hname : NamesMember name) (ls : List (Kind × String)) :
    (headKind (lexemesBefore (memberWritten isStatic isAsync generator isPrivate name) ls)).startsMember
      = true := by
  have hfront : ∀ {flag : Bool} {text : String} {ls : List (Kind × String)},
      (kindOf text).startsMember = true → (headKind ls).startsMember = true →
        (headKind (lexemesBefore (writtenIf flag text) ls)).startsMember = true := by
    intro flag text ls htext hls
    cases flag <;> assumption
  have hword : (kindOf name).startsMember = true := by
    unfold Kind.startsMember
    rcases hname.kind with hkind | hkind <;> rw [hkind]
    · rfl
    · exact Bool.or_true _
  unfold memberWritten
  simp only [lexemesBefore_append]
  refine hfront (by rw [kindOf_static]; rfl) (hfront (by rw [kindOf_async]; rfl) ?_)
  exact hfront (by rw [kindOf_star]; rfl) (hfront (by rw [kindOf_hash]; rfl) hword)

lemma WritesMember.head (h : WritesMember e ts) (rest : List (Kind × String)) :
    (headKind (lexemesBefore ts rest)).startsMember = true := by
  cases h with
  | method hname _ _ =>
    rw [lexemesBefore_append]
    exact memberWritten_head hname _
  | property hname _ =>
    rw [lexemesBefore_append]
    exact memberWritten_head hname _

lemma Kind.facts_of_startsMember {kind : Kind} (h : kind.startsMember = true) :
    kind ≠ .rBrace ∧ kind ≠ .semicolon ∧ kind ≠ .endOfFile := by
  revert h
  cases kind <;> decide

/-- The members of a class up to the brace that ends it. -/
lemma members_takes {members : List Node} {written : List (List String)}
    (h : List.Forall₂ WritesMember members written) (hlevels : written.flatten.length ≤ n)
    (hdepth : c.depth + written.flatten.length ≤ c.limit) (hrest : headKind rest = .rBrace)
    (read : List Node) (b : Nat) (hb : written.flatten.length < b) :
    Takes (loop (Grammar.upTo n).nextMember b read) c (lexemesBefore written.flatten rest)
      (read.reverse ++ members) rest := by
  induction h generalizing read b with
  | nil =>
    obtain ⟨b, rfl⟩ : ∃ d, b = d + 1 := ⟨b - 1, by omega⟩
    rw [List.append_nil]
    exact Takes.loop_closed rfl hrest
  | @cons e ts members written hmember _ ih =>
    obtain ⟨vs, us, rfl, hpos, hend, htakes⟩ := hmember.takes
    have hlength : (vs ++ us).length = vs.length + us.length := List.length_append
    have hhead := Kind.facts_of_startsMember (hmember.head (lexemesBefore written.flatten rest))
    rw [List.flatten_cons, List.length_append] at hlevels hdepth hb
    rw [List.flatten_cons]
    simp only [lexemesBefore_append] at hhead ⊢
    have hmember : Takes ((Grammar.upTo n).nextMember read) c
        (lexemesBefore vs (lexemesBefore us (lexemesBefore written.flatten rest)))
        (.again (e :: read)) (lexemesBefore us (lexemesBefore written.flatten rest)) := by
      refine Takes.sees_neg hhead.1 ?_
      refine Takes.accept_neg hhead.2.1 ?_
      refine Takes.sees_neg hhead.2.2 ?_
      exact (htakes n c _ (by omega) (by omega)).bind (Takes.pure _)
    have hbehind : ∀ b, written.flatten.length < b →
        Takes (loop (Grammar.upTo n).nextMember b (e :: read)) c
          (lexemesBefore written.flatten rest) (read.reverse ++ e :: members) rest := by
      intro b hb
      have hloop := ih (by omega) (by omega) (e :: read) b hb
      rwa [List.reverse_cons, List.append_assoc] at hloop
    cases hend with
    | absent =>
      obtain ⟨b, rfl⟩ : ∃ d, b = d + 1 := ⟨b - 1, by omega⟩
      exact Takes.loop_again hmember (hbehind b (by omega))
    | present =>
      rw [List.length_singleton] at hlength
      obtain ⟨b, rfl⟩ : ∃ d, b = d + 2 := ⟨b - 2, by omega⟩
      have hsemicolon : kindOf ";" = .semicolon := kindOf_semicolon
      have hskip : Takes ((Grammar.upTo n).nextMember (e :: read)) c
          ((kindOf ";", ";") :: lexemesBefore written.flatten rest) (.again (e :: read))
          (lexemesBefore written.flatten rest) := by
        refine Takes.sees_neg ?_ (Takes.accept_mark hsemicolon (Takes.pure _))
        rw [headKind_cons, hsemicolon]
        decide
      exact Takes.loop_again hmember (Takes.loop_again hskip (hbehind b (by omega)))

end Members

/-! ### Classes -/

/-- A class is read on its level of nesting, where nothing but the brace ends it. -/
lemma WritesClass.takes {e : Node} {ts : List String} (h : WritesClass e ts) {n : Nat} {c : Context}
    {rest : List (Kind × String)} (hlevels : ts.length ≤ n) (hdepth : c.depth + ts.length ≤ c.limit) :
    Takes (Grammar.upTo n).classDeclaration c (lexemesBefore ts rest) e rest := by
  cases h with
  | @declaration id superClass members ts us written hid hsuper hmembers =>
    simp only [List.length_cons, List.length_append, List.length_nil] at hlevels hdepth
    simp only [lexemesBefore_cons, lexemesBefore_append, lexemesBefore_nil]
    have hbrace : kindOf "\x7b" = .lBrace := kindOf_lBrace
    have hclose : headKind ((kindOf "\x7d", "\x7d") :: rest) = .rBrace := kindOf_rBrace
    have hheritage : Takes (optionally .kwExtends (Grammar.upTo n).heritage) c
        (lexemesBefore us ((kindOf "\x7b", "\x7b") ::
          lexemesBefore written.flatten ((kindOf "\x7d", "\x7d") :: rest)))
        superClass ((kindOf "\x7b", "\x7b") ::
          lexemesBefore written.flatten ((kindOf "\x7d", "\x7d") :: rest)) := by
      cases hsuper with
      | absent =>
        refine Takes.optionally_none ?_
        rw [lexemesBefore_nil, headKind_cons, hbrace]
        decide
      | present h =>
        cases h with
        | heritage hname =>
          obtain ⟨n, rfl⟩ : ∃ d, n = d + 1 := ⟨n - 1, by omega⟩
          refine Takes.optionally_mark kindOf_extends ((hname.identifier _).bind ?_)
          refine Takes.loop_done (Takes.lookahead_bind fun t ht => ?_)
          rw [ht, headKind_cons, hbrace]
          exact Takes.pure _
    have hmembers : Takes (loop (Grammar.upTo n).nextMember n []) c
        (lexemesBefore written.flatten ((kindOf "\x7d", "\x7d") :: rest)) members
        ((kindOf "\x7d", "\x7d") :: rest) :=
      members_takes hmembers (by omega) (by omega) hclose [] n (by omega)
    have hbody : Takes (Grammar.upTo n).classBody c ((kindOf "\x7b", "\x7b") ::
        lexemesBefore written.flatten ((kindOf "\x7d", "\x7d") :: rest)) (.classBody members) rest := by
      refine Takes.expect_mark hbrace ?_
      refine hmembers.bind ?_
      exact Takes.expect_mark kindOf_rBrace (Takes.pure _)
    refine Takes.expect_mark kindOf_class ((hid.identifier _).bind ?_)
    exact hheritage.bind (hbody.bind (Takes.pure _))

/-- A statement as the only one of a program. -/
lemma program_of_statementKind {e : Node} {ls : List (Kind × String)} {n limit : Nat}
    (hhead : headKind ls ≠ .endOfFile) (hlimit : 0 < limit)
    (h : Takes (Grammar.upTo (n + 1)).statementKind ⟨limit, 1, false⟩ ls e []) :
    Takes (Grammar.upTo (n + 2)).program ⟨limit, 0, false⟩ ls (.program [e]) [] := by
  have hstatement : Takes ((Grammar.upTo (n + 2)).nextInProgram []) ⟨limit, 0, false⟩ ls
      (.again [e]) [] := by
    refine Takes.sees_neg hhead ?_
    exact (Takes.nested hlimit h).bind (Takes.pure _)
  exact Takes.loop_again hstatement (Takes.loop_closed rfl rfl)

lemma WritesClass.program {e : Node} {ts : List String} (h : WritesClass e ts) {n limit : Nat}
    (hlevels : ts.length ≤ n) (hlimit : ts.length < limit) :
    Takes (Grammar.upTo (n + 2)).program ⟨limit, 0, false⟩ (lexemesBefore ts []) (.program [e])
      [] := by
  have hhead : headKind (lexemesBefore ts []) = .kwClass := by
    cases h
    exact kindOf_class
  refine program_of_statementKind (by rw [hhead]; decide) (by omega) ?_
  refine Takes.lookahead_bind fun t ht => ?_
  rw [ht, hhead]
  exact h.takes (hlevels.trans (Nat.le_succ n)) (by change 1 + ts.length ≤ limit; omega)

lemma WritesMethod.onLines {params : List Node} {body : Node} {ts : List String}
    (h : WritesMethod params body ts) : OnLines ts := by
  cases h with
  | method hparams hbody =>
    exact onLines_enclosed (readsLines_parameter.row hparams) hbody.onLines

lemma onLines_writtenIf {flag : Bool} {text : String} (h : OnLine text) :
    OnLines (writtenIf flag text) := by
  cases flag with
  | false => exact .nil
  | true => exact .cons h .nil

lemma memberWritten_legible {isStatic isAsync generator isPrivate : Bool} {name next : String}
    {texts : List String} (hname : NamesMember name) (hnext : ¬['*'] <+: next.toList)
    (hrest : Legible (next :: texts)) :
    Legible (memberWritten isStatic isAsync generator isPrivate name ++ next :: texts) := by
  unfold memberWritten
  simp only [List.append_assoc, List.singleton_append]
  refine (onLines_writtenIf (onLine_classWord "static" (by decide))).legible_append ?_
  refine (onLines_writtenIf (onLine_mark .kwAsync rfl)).legible_append ?_
  refine (onLines_writtenIf (onLine_fixed (by decide))).legible_append ?_
  refine (onLines_writtenIf (onLine_fixed (by decide))).legible_append ?_
  exact hname.legible hnext hrest

lemma WritesMember.legible {e : Node} {ts us : List String} (h : WritesMember e ts)
    (hus : Legible us) : Legible (ts ++ us) := by
  have hsemicolon : Legible (";" :: us) := .cons (onLine_mark .semicolon rfl) hus
  cases h with
  | method hname hmethod hend =>
    have hbehind := hmethod.onLines.legible_append (hend.onLines.legible_append hus)
    rw [List.append_assoc, List.append_assoc]
    cases hmethod
    exact memberWritten_legible hname (by decide) hbehind
  | property hname hvalue =>
    rw [List.append_assoc, List.append_assoc, List.singleton_append]
    cases hvalue with
    | absent => exact memberWritten_legible hname (by decide) hsemicolon
    | present hvalue =>
      have hbehind := (readsLines_value _ _ hvalue).legible_append hsemicolon
      cases hvalue
      exact memberWritten_legible hname (by decide) hbehind

lemma WritesClass.legible {e : Node} {ts : List String} (h : WritesClass e ts) : Legible ts := by
  cases h with
  | @declaration id superClass members ts us written hid hsuper hmembers =>
    have hclose : Legible ["\x7d"] := .cons (onLine_mark .rBrace rfl) .nil
    have hbody : Legible (written.flatten ++ ["\x7d"]) := by
      induction hmembers with
      | nil => exact hclose
      | cons hmember _ ih =>
        rw [List.flatten_cons, List.append_assoc]
        exact hmember.legible ih
    have hheritage : OnLines us := by
      cases hsuper with
      | absent => exact .nil
      | present h =>
        cases h with
        | heritage hname =>
          exact .cons (onLine_classWord "extends" (by decide)) (readsLines_name _ _ hname)
    refine .cons (onLine_classWord "class" (by decide)) ?_
    refine (readsLines_name _ _ hid).legible_append (hheritage.legible_append ?_)
    exact .cons (onLine_mark .lBrace rfl) hbody

/-- A class that is written with one lexeme on each line is read back as it is. -/
theorem parse_of_writesClass {e : Node} {texts : List String} (h : WritesClass e texts)
    {limit : Nat} (hlimit : 2 * texts.length + 2 ≤ limit) :
    parse ("\n".intercalate texts) limit = .ok (.program [e]) := by
  obtain ⟨hlexemes, last, hlast⟩ := h.legible.scansBack 0
  refine parse_of_takes (fun n hn => ?_) hlexemes hlast
  rw [List.length_map] at hn
  have htakes := h.program hn (show texts.length < limit by omega)
  rwa [lexemesBefore, List.append_nil] at htakes

/-- Both modifiers as names, and behind each other. -/
theorem reads_back_static_async :
    WritesClass (.classDeclaration (.identifier "A") (some (.identifier "B")) (.classBody
        [.classMethodDefinition (.identifier "static") true .method
          (.functionExpression none false false [] (.blockStatement [])),
         .classProperty (.identifier "async") (some (.identifier "B")) true,
         .classMethodDefinition (.identifier "async") false .method
          (.functionExpression none true true [.identifier "A", .identifier "B"]
            (.blockStatement [])),
         .classPrivateProperty (.privateName (.identifier "function")) none false,
         .classMethodDefinition (.identifier "constructor") false .constructor
          (.functionExpression none false false [] (.blockStatement []))]))
      ["class", "A", "extends", "B", "\x7b", "static", "static", "(", ")", "\x7b", "\x7d",
        "static", "async", "=", "B", ";", "async", "*", "async", "(", "A", ",", "B", ")", "\x7b",
        "\x7d", ";", "#", "function", ";", "constructor", "(", ")", "\x7b", "\x7d", "\x7d"] ∧
    parse ("class\nA\nextends\nB\n\x7b\nstatic\nstatic\n(\n)\n\x7b\n\x7d\n" ++
        "static\nasync\n=\nB\n;\nasync\n*\nasync\n(\nA\n,\nB\n)\n\x7b\n\x7d\n;\n" ++
        "#\nfunction\n;\nconstructor\n(\n)\n\x7b\n\x7d\n\x7d") 74 =
      .ok (.program [.classDeclaration (.identifier "A") (some (.identifier "B")) (.classBody
        [.classMethodDefinition (.identifier "static") true .method
          (.functionExpression none false false [] (.blockStatement [])),
         .classProperty (.identifier "async") (some (.identifier "B")) true,
         .classMethodDefinition (.identifier "async") false .method
          (.functionExpression none true true [.identifier "A", .identifier "B"]
            (.blockStatement [])),
         .classPrivateProperty (.privateName (.identifier "function")) none false,
         .classMethodDefinition (.identifier "constructor") false .constructor
          (.functionExpression none false false [] (.blockStatement []))])]) := by
  have hwords : ∀ word ∈ [(Kind.kwStatic, "static", 6), (.kwAsync, "async", 5),
      (.kwFunction, "function", 8), (.identifier, "constructor", 11), (.identifier, "A", 1),
      (.identifier, "B", 1)],
      (scanSource word.2.1).1.map Token.lexeme = [(word.1, word.2.1)] ∧
        (scanSource word.2.1).2 = .ok (.endOfFile word.2.2) := by
    decide +kernel
  simp only [List.forall_mem_cons] at hwords
  obtain ⟨⟨hs, hs'⟩, ⟨ha, ha'⟩, ⟨hf, hf'⟩, ⟨hc, hc'⟩, ⟨hA, hA'⟩, ⟨hB, hB'⟩, -⟩ := hwords
  have hA : WritesName (.identifier "A") ["A"] := .name ⟨hA, _, hA'⟩
  have hB : WritesName (.identifier "B") ["B"] := .name ⟨hB, _, hB'⟩
  have hblock : Writes true (.block (.blockStatement [])) ["\x7b", "\x7d"] := .block .rowNil
  have hplain := WritesMethod.method .none hblock
  have hparams := WritesMethod.method (.cons (.plain hA) (.last (.plain hB))) hblock
  have hstatic := @WritesMember.method true false false false "static" _ _ _ _
    ⟨_, ⟨hs, _, hs'⟩, Or.inr rfl⟩ hplain .absent
  have hvalue := @WritesMember.property true false "async" _ _ ⟨_, ⟨ha, _, ha'⟩, Or.inr rfl⟩
    (.present (.value hB))
  have hasync := @WritesMember.method false true true false "async" _ _ _ _
    ⟨_, ⟨ha, _, ha'⟩, Or.inr rfl⟩ hparams .present
  have hhidden := @WritesMember.property false true "function" _ _ ⟨_, ⟨hf, _, hf'⟩, Or.inr rfl⟩ .absent
  have hconstructor := @WritesMember.method false false false false "constructor" _ _ _ _
    ⟨_, ⟨hc, _, hc'⟩, Or.inl rfl⟩ hplain .absent
  have hmembers := List.Forall₂.cons hconstructor .nil
  have hmembers := List.Forall₂.cons hhidden hmembers
  have hmembers := List.Forall₂.cons hasync hmembers
  have hmembers := List.Forall₂.cons hvalue hmembers
  have hmembers := List.Forall₂.cons hstatic hmembers
  have hclass := WritesClass.declaration hA (.present (.heritage hB)) hmembers
  exact ⟨hclass, parse_of_writesClass hclass (by decide)⟩

end ScriptTree
