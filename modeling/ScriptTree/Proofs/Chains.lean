import ScriptTree.Proofs.Nesting
import ScriptTree.Proofs.RoundTrip

/-!
# Chains without a limit

The limit bounds how many edges of a path are no links of a chain. It does not bound the links: a
chain of any length is read on one level, so trees of any height are accepted.

Main statements: `bends_le_of_parse`, and `height_not_bounded` for the links.
-/

namespace ScriptTree

open ScriptTree.Parser

/-- A name with a number of member accesses behind it. -/
def memberChain : Nat → Node
  | 0 => .identifier "a"
  | n + 1 => .memberExpression (memberChain n) (.identifier "a") false

lemma le_height_memberChain (n : Nat) : n ≤ (memberChain n).height := by
  induction n with
  | zero => exact Nat.zero_le _
  | succ n ih =>
    have hlt : (memberChain n).height < (memberChain (n + 1)).height :=
      Node.height_lt_of_mem (by simp [memberChain, Node.children, Node.fields, Field.nodes])
    omega

/-- The lexemes of a number of member accesses. -/
def accessLexemes : Nat → List (Kind × String)
  | 0 => []
  | n + 1 => (.dot, ".") :: (.identifier, "a") :: accessLexemes n

/-- The lexemes of a class that extends the last member of a chain. -/
def chainLexemes (n : Nat) : List (Kind × String) :=
  (.kwClass, "class") :: (.identifier, "A") :: (.kwExtends, "extends") :: (.identifier, "a") ::
    (accessLexemes n ++ [(.lBrace, "\x7b"), (.rBrace, "\x7d")])

/-- The class, with one lexeme on each line. -/
def chainSource (n : Nat) : String :=
  "\n".intercalate ((chainLexemes n).map Prod.snd)

/-- The tree of that class. -/
def chainTree (n : Nat) : Node :=
  .program [.classDeclaration (.identifier "A") (some (memberChain n)) (.classBody [])]

lemma lt_height_chainTree (n : Nat) : n < (chainTree n).height := by
  calc n ≤ (memberChain n).height := le_height_memberChain n
    _ < (Node.classDeclaration (.identifier "A") (some (memberChain n)) (.classBody [])).height :=
      Node.height_lt_of_mem (by simp [Node.children, Node.fields, Field.nodes])
    _ < (chainTree n).height :=
      Node.height_lt_of_mem (by simp [chainTree, Node.children, Node.fields, Field.nodes])

lemma mem_accessLexemes {n : Nat} {lexeme : Kind × String} (h : lexeme ∈ accessLexemes n) :
    lexeme ∈ [(Kind.dot, "."), (.identifier, "a")] := by
  induction n with
  | zero => cases h
  | succ n ih =>
    rw [accessLexemes, List.mem_cons, List.mem_cons] at h
    rcases h with rfl | rfl | h
    · simp
    · simp
    · exact ih h

/-- Each lexeme is what its text is read as on a line of its own. -/
lemma onLine_of_mem_chainLexemes {n : Nat} {lexeme : Kind × String} (h : lexeme ∈ chainLexemes n) :
    lexemeOf lexeme.2 = lexeme ∧ OnLine lexeme.2 := by
  have hall : ∀ lexeme ∈ [(Kind.kwClass, "class"), (.identifier, "A"), (.kwExtends, "extends"),
      (.identifier, "a"), (.dot, "."), (.lBrace, "\x7b"), (.rBrace, "\x7d")],
      lexemeOf lexeme.2 = lexeme ∧ IsPlain lexeme.2.toList ∧
      "function".toList.isPrefixOf lexeme.2.toList = false ∧
      Rule.first? lexeme.2.toList = some (some (kindOf lexeme.2), lexeme.2.toList.length) := by
    decide +kernel
  have hmem : lexeme ∈ [(Kind.kwClass, "class"), (.identifier, "A"), (.kwExtends, "extends"),
      (.identifier, "a"), (.dot, "."), (.lBrace, "\x7b"), (.rBrace, "\x7d")] := by
    have haccess := @mem_accessLexemes n lexeme
    simp only [chainLexemes, List.mem_cons, List.mem_append, List.not_mem_nil, or_false] at h haccess ⊢
    tauto
  obtain ⟨hlexeme, hplain, hne, hrule⟩ := hall lexeme hmem
  exact ⟨hlexeme, onLine_of_isPlain hplain hne hrule⟩

lemma scan_chainSource (n : Nat) :
    (scanSource (chainSource n)).1.map Token.lexeme = chainLexemes n ∧
      ∃ last, (scanSource (chainSource n)).2 = .ok last := by
  have hline : ∀ text ∈ (chainLexemes n).map Prod.snd, OnLine text :=
    List.forall_mem_map.2 fun _ h => (onLine_of_mem_chainLexemes h).2
  obtain ⟨hlexemes, hlast⟩ := scan_lines _ hline 0
  refine ⟨hlexemes.trans ?_, hlast⟩
  rw [List.map_map]
  exact (List.map_congr_left fun _ h => (onLine_of_mem_chainLexemes h).1).trans (List.map_id _)

/-- Member accesses are taken up one after the other, on the level where the chain begins. -/
lemma accesses_takes {g : Grammar} {c : Context} {text : String} {rest : List (Kind × String)}
    {b : Nat} (n m : Nat) (hb : n < b) :
    Takes (loop (g.suffix false) b (memberChain m)) c (accessLexemes n ++ (.lBrace, text) :: rest)
      (memberChain (m + n)) ((.lBrace, text) :: rest) := by
  obtain ⟨b, rfl⟩ : ∃ d, b = d + 1 := ⟨b - 1, by omega⟩
  induction n generalizing m b with
  | zero =>
    refine Takes.loop_done (Takes.lookahead_bind fun t ht => ?_)
    rw [ht]
    exact Takes.pure _
  | succ n ih =>
    obtain ⟨b, rfl⟩ : ∃ d, b = d + 1 := ⟨b - 1, by omega⟩
    have hname : Takes memberName c ((.identifier, "a") :: (accessLexemes n ++ (.lBrace, text) :: rest))
        (.identifier "a") (accessLexemes n ++ (.lBrace, text) :: rest) := by
      refine Takes.accept_neg (by simp) (Takes.lookahead_bind fun t ht => ?_)
      rw [ht]
      exact identifier_takes
    have hturn : Takes (g.suffix false (memberChain m)) c
        (accessLexemes (n + 1) ++ (.lBrace, text) :: rest) (.again (memberChain (m + 1)))
        (accessLexemes n ++ (.lBrace, text) :: rest) := by
      refine Takes.lookahead_bind fun t ht => ?_
      rw [ht]
      exact Takes.advance_bind fun _ _ => hname.bind (Takes.pure _)
    have hrest := ih (m + 1) b (by omega)
    rw [Nat.add_right_comm] at hrest
    exact Takes.loop_again hturn hrest

lemma chain_takes {levels n : Nat} {c : Context} (hlevels : n < levels) :
    Takes (Grammar.upTo levels).classDeclaration c (chainLexemes n)
      (.classDeclaration (.identifier "A") (some (memberChain n)) (.classBody [])) [] := by
  have hchain : Takes (Grammar.upTo levels).heritage c
      ((.identifier, "a") :: (accessLexemes n ++ [(.lBrace, "\x7b"), (.rBrace, "\x7d")])) (memberChain n)
      [(.lBrace, "\x7b"), (.rBrace, "\x7d")] := by
    have haccesses : Takes ((Grammar.upTo levels).suffixes false (memberChain 0)) c
        (accessLexemes n ++ [(.lBrace, "\x7b"), (.rBrace, "\x7d")]) (memberChain (0 + n))
        [(.lBrace, "\x7b"), (.rBrace, "\x7d")] := accesses_takes n 0 hlevels
    rw [Nat.zero_add] at haccesses
    exact identifier_takes.bind haccesses
  have hbody : Takes (Grammar.upTo levels).classBody c [(.lBrace, "\x7b"), (.rBrace, "\x7d")]
      (.classBody []) [] := by
    obtain ⟨b, rfl⟩ : ∃ d, levels = d + 1 := ⟨levels - 1, by omega⟩
    have hnone : Takes ((Grammar.upTo (b + 1)).nextMember []) c [(.rBrace, "\x7d")] (.done [])
        [(.rBrace, "\x7d")] :=
      Takes.sees_pos rfl (Takes.pure _)
    refine Takes.expect_skip ?_
    refine (Takes.loop_done hnone).bind ?_
    exact Takes.expect_skip (Takes.pure _)
  refine Takes.expect_skip ?_
  refine identifier_takes.bind ?_
  have hextends : Takes (Parser.optionally .kwExtends (Grammar.upTo levels).heritage) c
      ((.kwExtends, "extends") :: (.identifier, "a") ::
        (accessLexemes n ++ [(.lBrace, "\x7b"), (.rBrace, "\x7d")])) (some (memberChain n))
      [(.lBrace, "\x7b"), (.rBrace, "\x7d")] :=
    Takes.accept_pos (hchain.map some)
  exact hextends.bind (hbody.bind (Takes.pure _))

lemma length_accessLexemes (n : Nat) : n ≤ (accessLexemes n).length := by
  induction n with
  | zero => exact Nat.zero_le _
  | succ n ih =>
    rw [accessLexemes, List.length_cons, List.length_cons]
    omega

/-- One level is enough for a chain of any length. -/
lemma parse_chainSource (n : Nat) {limit : Nat} (hlimit : 0 < limit) :
    parse (chainSource n) limit = .ok (chainTree n) := by
  obtain ⟨hlexemes, last, hlast⟩ := scan_chainSource n
  refine parse_of_takes (fun levels hlevels => ?_) hlexemes hlast
  have hlength : n < levels := by
    have haccess := length_accessLexemes n
    simp only [chainLexemes, List.length_cons, List.length_append, List.length_nil] at hlevels
    omega
  have hclass : Takes ((Grammar.upTo (levels + 2)).parse .statement) ⟨limit, 0, false⟩
      (chainLexemes n)
      (.classDeclaration (.identifier "A") (some (memberChain n)) (.classBody [])) [] := by
    refine Takes.nested hlimit (Takes.lookahead_bind fun t ht => ?_)
    rw [ht]
    exact chain_takes (Nat.lt_succ_of_lt hlength)
  have hfirst : Takes ((Grammar.upTo (levels + 2)).nextInProgram []) ⟨limit, 0, false⟩
      (chainLexemes n)
      (.again [.classDeclaration (.identifier "A") (some (memberChain n)) (.classBody [])]) [] :=
    Takes.sees_neg (by simp [chainLexemes]) (hclass.bind (Takes.pure _))
  have hend : Takes ((Grammar.upTo (levels + 2)).nextInProgram
      [.classDeclaration (.identifier "A") (some (memberChain n)) (.classBody [])])
      ⟨limit, 0, false⟩ [] (.done (chainTree n)) [] :=
    Takes.sees_pos rfl (Takes.pure _)
  exact Takes.loop_again hfirst (Takes.loop_done hend)

/-- As soon as a limit lets a statement through, it lets trees of any height through. -/
theorem exists_higher {limit : Nat} (hlimit : 0 < limit) (bound : Nat) :
    ∃ source tree, parse source limit = .ok tree ∧ bound < tree.height :=
  ⟨chainSource bound, chainTree bound, parse_chainSource bound hlimit, lt_height_chainTree bound⟩

/-- The limit does not bound the height of accepted trees. -/
theorem height_not_bounded :
    ¬ ∀ limit, ∃ bound, ∀ source tree, parse source limit = .ok tree → tree.height ≤ bound := by
  intro h
  obtain ⟨bound, hbound⟩ := h defaultLimit
  obtain ⟨source, tree, htree, hheight⟩ := exists_higher (by decide : 0 < defaultLimit) bound
  exact absurd (hbound source tree htree) (Nat.not_le_of_lt hheight)

/-- It bounds the edges of a path that are no links of a chain. -/
theorem bends_le_of_parse {source : String} {limit : Nat} {tree : Node}
    (h : parse source limit = .ok tree) {path : List Edge} (hpath : tree.IsPath false path) :
    path.countP (fun edge => !edge.isLink) ≤ 18 * limit := by
  have hprice : ∀ edge : Edge, (⟨1, 1⟩ : Tariff).price edge = if !edge.isLink then 1 else 0 := by
    intro edge
    rw [Tariff.price]
    cases edge.isLink with
    | true => rfl
    | false => exact ite_self 1
  have htotal := total_le_of_parse h ⟨1, 1⟩ hpath
  rwa [Tariff.total_eq_countP hprice, Tariff.pay, Nat.mul_comm] at htotal

theorem bends_beside_links :
    ∃ tree path, parse "x = a.b[-c].d(e) + f" 5 = .ok tree ∧ tree.IsPath false path ∧
      path.map Edge.isLink = [false, false, true, true, true, false, false] ∧
      path.countP (fun edge => !edge.isLink) ≤ 18 * 5 := by
  have hlinks : (parse "x = a.b[-c].d(e) + f" 5).map (fun tree => (tree.follow false
      ["body", "value", "left", "callee", "object", "property", "argument"]).map Edge.isLink) =
        .ok [false, false, true, true, true, false, false] := by
    decide +kernel
  rcases hparse : parse "x = a.b[-c].d(e) + f" 5 with e | tree
  · rw [hparse] at hlinks
    cases hlinks
  · rw [hparse] at hlinks
    have hpath := tree.isPath_follow false
      ["body", "value", "left", "callee", "object", "property", "argument"]
    exact ⟨tree, _, rfl, hpath, Except.ok.inj hlinks, bends_le_of_parse hparse hpath⟩

end ScriptTree
