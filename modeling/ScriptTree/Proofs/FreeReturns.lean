import Mathlib.Algebra.GroupWithZero.Nat
import ScriptTree.Proofs.Schema

/-!
# Free returns

A `return` is free in a tree if it is in the body of no function of that tree. `FreeReturns` says
which tokens of a source they are: it derives statements as `Derives` does outside of functions, but
lets a `return` stand there and lists its word.

Main statement: `FreeReturns.length_eq`, there is one such word for each free `return` of the tree.
-/

namespace ScriptTree

namespace Node

def isReturn : Node → Bool
  | returnStatement _ => true
  | _ => false

/-- A node with a body of its own to return from. -/
def isFunction : Node → Bool
  | arrowFunctionExpression .. | functionExpression .. | functionDeclaration .. => true
  | _ => false

/-- The fields of a node, without the body of a function. -/
def outerFields {α : Type} (node : Node) (fields : List (String × Field α)) :
    List (String × Field α) :=
  if node.isFunction then fields.filter (·.1 != "body") else fields

/-- The number of `return`s in a tree that are in the body of no function of that tree. -/
def freeReturns : Node → Nat :=
  fold fun node fields =>
    node.isReturn.toNat + ((node.outerFields fields).map (·.2.nodes.sum)).sum

lemma freeReturns_eq (node : Node) :
    node.freeReturns = node.isReturn.toNat +
      ((node.outerFields node.fields).map fun field => (field.2.nodes.map freeReturns).sum).sum := by
  have hnodes : ∀ field : Field Node, (field.map freeReturns).nodes = field.nodes.map freeReturns := by
    intro field
    cases field with
    | optional child => cases child <;> rfl
    | nullable child => cases child <;> rfl
    | _ => rfl
  have houter : ∀ fields : List (String × Field Node),
      node.outerFields (fields.map fun f => (f.1, f.2.map freeReturns)) =
        (node.outerFields fields).map fun f => (f.1, f.2.map freeReturns) := by
    intro fields
    unfold outerFields
    split
    · rw [List.filter_map]
      rfl
    · rfl
  unfold freeReturns
  rw [fold_eq]
  change _ + List.sum (List.map _ (node.outerFields
    (node.fields.map fun f => (f.1, f.2.map freeReturns)))) = _
  simp only [houter, List.map_map, Function.comp_def, hnodes]
  rfl

/-- The `return`s of a node that is neither a `return` nor a function are those of its fields. -/
lemma freeReturns_of_plain {node : Node} (hreturn : node.isReturn = false)
    (hfunction : node.isFunction = false) :
    node.freeReturns = (node.fields.map fun field => (field.2.nodes.map freeReturns).sum).sum := by
  rw [freeReturns_eq, outerFields, hreturn, if_neg (ne_true_of_eq_false hfunction)]
  exact Nat.zero_add _

/-- Those of a function are the ones outside of its body. -/
lemma freeReturns_of_function {node : Node} (hreturn : node.isReturn = false)
    (hfunction : node.isFunction = true) :
    node.freeReturns = ((node.fields.filter (·.1 != "body")).map fun field =>
      (field.2.nodes.map freeReturns).sum).sum := by
  rw [freeReturns_eq, outerFields, hreturn, if_pos hfunction]
  exact Nat.zero_add _

@[simp]
lemma freeReturns_name (name : String) : (identifier name).freeReturns = 0 :=
  freeReturns_eq _

@[simp]
lemma freeReturns_text (value : String) : (templateElement value).freeReturns = 0 :=
  freeReturns_eq _

@[simp]
lemma freeReturns_classBody (members : List Node) :
    (classBody members).freeReturns = (members.map freeReturns).sum :=
  freeReturns_of_plain rfl rfl

@[simp]
lemma freeReturns_arrow (generator isAsync : Bool) (params : List Node) (body : Node) :
    (arrowFunctionExpression generator isAsync params body).freeReturns =
      (params.map freeReturns).sum := by
  rw [freeReturns_of_function rfl rfl]
  simp [fields, Field.nodes]

@[simp]
lemma freeReturns_method (generator isAsync : Bool) (params : List Node) (body : Node) :
    (functionExpression none generator isAsync params body).freeReturns =
      (params.map freeReturns).sum := by
  rw [freeReturns_of_function rfl rfl]
  simp [fields, Field.nodes]

lemma freeReturns_of_arrowParam? {node param : Node} (h : node.freeReturns = 0)
    (hparam : arrowParam? node = some param) : param.freeReturns = 0 := by
  unfold arrowParam? at hparam
  split at hparam
  next name =>
    cases hparam
    exact h
  next name operator value =>
    cases hparam
    rw [freeReturns_of_plain rfl rfl] at h ⊢
    simpa [fields, Field.nodes] using h
  next => cases hparam

/-- Parameters have no free `return` if the expression they were read as has none. -/
lemma freeReturns_of_arrowParams? {node param : Node} {params : List Node}
    (h : node.freeReturns = 0) (hparams : arrowParams? node = some params) (hmem : param ∈ params) :
    param.freeReturns = 0 := by
  obtain ⟨part, rfl | ⟨parts, rfl, hpart⟩, hparam⟩ := exists_arrowParam? hparams hmem
  · exact freeReturns_of_arrowParam? h hparam
  · rw [freeReturns_of_plain rfl rfl] at h
    have hparts : (parts.map freeReturns).sum = 0 := h
    rw [List.sum_eq_zero_iff_forall_eq_nat, List.forall_mem_map] at hparts
    exact freeReturns_of_arrowParam? (hparts part hpart) hparam

end Node

/-- The nodes of a phrase that are not in a body of a function. -/
def Phrase.outerNodes : Phrase → List Node
  | one _ n => [n]
  | perhaps _ n? | behind _ _ n? => n?.toList
  | row _ _ ns | list _ _ _ ns => ns
  | code params _ => params
  | head params => params
  | template _ es qs => es ++ qs

/-- The number of free `return`s in the nodes of a phrase. -/
def Phrase.freeReturns (phrase : Phrase) : Nat :=
  (phrase.outerNodes.map Node.freeReturns).sum

namespace Phrase

variable {category : Category}

@[simp]
lemma freeReturns_one (n : Node) : (one category n).freeReturns = n.freeReturns :=
  Nat.add_zero _

@[simp]
lemma freeReturns_perhaps (n? : Option Node) :
    (perhaps category n?).freeReturns = (n?.toList.map Node.freeReturns).sum :=
  rfl

@[simp]
lemma freeReturns_behind (kind : Kind) (n? : Option Node) :
    (behind kind category n?).freeReturns = (n?.toList.map Node.freeReturns).sum :=
  rfl

@[simp]
lemma freeReturns_row (separator : Option Kind) (ns : List Node) :
    (row separator category ns).freeReturns = (ns.map Node.freeReturns).sum :=
  rfl

end Phrase

lemma Literal.freeReturns_eq_zero {t : Token} {n : Node} (h : Literal t n) : n.freeReturns = 0 := by
  cases h <;> exact Node.freeReturns_eq _

/-- Outside of functions nothing is derived that has a free `return`. -/
theorem Derives.freeReturns_eq_zero {c : Context} {phrase : Phrase} {ts : List Token}
    (h : Derives c phrase ts) (hc : c.inFunction = false) : phrase.freeReturns = 0 := by
  induction h with
  | headCover _ hparams ih =>
    have hnode := ih hc
    simp only [Phrase.freeReturns, Phrase.outerNodes, List.map_singleton, List.sum_singleton,
      List.sum_eq_zero_iff_forall_eq_nat, List.forall_mem_map] at hnode ⊢
    intro param hparam
    exact Node.freeReturns_of_arrowParams? hnode hparams hparam
  | literal h | keyLiteral _ h =>
    simpa [Phrase.freeReturns, Phrase.outerNodes] using h.freeReturns_eq_zero
  | returnStatement hin => simp [hc] at hin
  | _ =>
    -- what is left to show is that a node has no free `return` whose parts have none
    simp_all [Phrase.freeReturns, Phrase.outerNodes, Context.deeper]
    all_goals
      rw [Node.freeReturns_eq]
      simp_all [Node.isReturn, Node.outerFields, Node.isFunction, Node.fields, Field.nodes]

/-- How phrases outside of functions are made of tokens if a `return` may stand there, and the words
of these `return`s. -/
inductive FreeReturns : Context → Phrase → List Token → List Token → Prop where
  | none {c phrase ts} (h : Derives c phrase ts) : FreeReturns c phrase ts []
  | returnStatement {c t argument ts b us} (ht : Is .kwReturn t)
      (h : Derives c (.perhaps (.tier 0) argument) ts) (hend : Mark (Is .semicolon) b us) :
      FreeReturns c (.one .statementKind (.returnStatement argument)) (t :: (ts ++ us)) [t]
  | behind {c kind category n t ts rs} (ht : Is kind t) (h : FreeReturns c (.one category n) ts rs) :
      FreeReturns c (.behind kind category (some n)) (t :: ts) rs
  | rowItem {c separator category ns ts rs n us qs}
      (h : FreeReturns c (.row separator category ns) ts rs)
      (hn : FreeReturns c (.one category n) us qs) :
      FreeReturns c (.row separator category (ns ++ [n])) (ts ++ us) (rs ++ qs)
  | statement {c n ts rs} (hdepth : c.depth < c.limit)
      (h : FreeReturns c.deeper (.one .statementKind n) ts rs) :
      FreeReturns c (.one .statement n) ts rs
  | block {c body t ts rs u} (ht : Is .lBrace t)
      (h : FreeReturns c (.row none .statement body) ts rs) (hu : Is .rBrace u) :
      FreeReturns c (.one .block (.blockStatement body)) (t :: (ts ++ [u])) rs
  | blockStatement {c n ts rs} (h : FreeReturns c (.one .block n) ts rs) :
      FreeReturns c (.one .statementKind n) ts rs
  | ifStatement {c t test ts consequent us rs alternate vs qs} (ht : Is .kwIf t)
      (htest : Derives c (.one (.enclosed .round 0) test) ts)
      (hconsequent : FreeReturns c (.one .statement consequent) us rs)
      (halternate : FreeReturns c (.behind .kwElse .statement alternate) vs qs) :
      FreeReturns c (.one .statementKind (.ifStatement test consequent alternate))
        (t :: (ts ++ (us ++ vs))) (rs ++ qs)
  | loopBlock {c n ts rs} (h : FreeReturns c (.one .block n) ts rs) :
      FreeReturns c (.one .loopBody n) ts rs
  | loopSingle {c n ts rs} (h : FreeReturns c (.one .statement n) ts rs) :
      FreeReturns c (.one .loopBody (.blockStatement [n])) ts rs
  | forStatement {c t u init ts v test us w update vs x body ws rs} (ht : Is .kwFor t)
      (hu : Is .lParen u) (hinit : Derives c (.perhaps .loopStart init) ts) (hv : Is .semicolon v)
      (htest : Derives c (.perhaps (.tier 0) test) us) (hw : Is .semicolon w)
      (hupdate : Derives c (.perhaps (.tier 0) update) vs) (hx : Is .rParen x)
      (hbody : FreeReturns c (.one .loopBody body) ws rs) :
      FreeReturns c (.one .statementKind (.forStatement init test update body))
        (t :: u :: (ts ++ v :: (us ++ w :: (vs ++ x :: ws)))) rs
  | forOfStatement {c t u left ts v right us w body vs rs} (ht : Is .kwFor t) (hu : Is .lParen u)
      (hleft : Derives c (.one .loopStart left) ts) (hv : Is .kwOf v)
      (hright : Derives c (.one (.tier 1) right) us) (hw : Is .rParen w)
      (hbody : FreeReturns c (.one .loopBody body) vs rs) :
      FreeReturns c (.one .statementKind (.forOfStatement left right body))
        (t :: u :: (ts ++ v :: (us ++ w :: vs))) rs
  | whileStatement {c t test ts body us rs} (ht : Is .kwWhile t)
      (htest : Derives c (.one (.enclosed .round 0) test) ts)
      (hbody : FreeReturns c (.one .statement body) us rs) :
      FreeReturns c (.one .statementKind (.whileStatement test body)) (t :: (ts ++ us)) rs
  | doWhileStatement {c t body ts rs u test us b vs} (ht : Is .kwDo t)
      (hbody : FreeReturns c (.one .statement body) ts rs) (hu : Is .kwWhile u)
      (htest : Derives c (.one (.enclosed .round 0) test) us)
      (hend : Mark (Is .semicolon) b vs) :
      FreeReturns c (.one .statementKind (.doWhileStatement body test))
        (t :: (ts ++ u :: (us ++ vs))) rs
  | catchClause {c param ts body us rs}
      (hparam : Derives c (.behind .lParen .catchParameter param) ts)
      (hbody : FreeReturns c (.one .block body) us rs) :
      FreeReturns c (.one .catchClause (.catchClause param body)) (ts ++ us) rs
  | tryStatement {c t body ts rs handler us qs finalizer vs ps} (ht : Is .kwTry t)
      (hbody : FreeReturns c (.one .block body) ts rs)
      (hhandler : FreeReturns c (.behind .kwCatch .catchClause handler) us qs)
      (hfinalizer : FreeReturns c (.behind .kwFinally .block finalizer) vs ps)
      (hsome : handler.isSome = true ∨ finalizer.isSome = true) :
      FreeReturns c (.one .statementKind (.tryStatement body handler finalizer))
        (t :: (ts ++ (us ++ vs))) (rs ++ (qs ++ ps))

/-- There is one word for each free `return` of the tree. -/
theorem FreeReturns.length_eq {c : Context} {phrase : Phrase} {ts rs : List Token}
    (h : FreeReturns c phrase ts rs) (hc : c.inFunction = false) :
    rs.length = phrase.freeReturns := by
  induction h with
  | none h => exact (h.freeReturns_eq_zero hc).symm
  | returnStatement _ hargument _ =>
    have hargument := hargument.freeReturns_eq_zero hc
    rw [Phrase.freeReturns_one, Node.freeReturns_eq]
    simp_all [Node.isReturn, Node.outerFields, Node.isFunction, Node.fields, Field.nodes]
  | behind _ _ ih => simpa using ih hc
  | rowItem _ _ ihrow ih => simp_all
  | statement _ _ ih => exact ih hc
  | blockStatement _ ih => exact ih hc
  | loopBlock _ ih => exact ih hc
  | block _ _ _ ih =>
    rw [Phrase.freeReturns_one, Node.freeReturns_of_plain rfl rfl]
    simp_all [Node.fields, Field.nodes]
  | loopSingle _ ih =>
    rw [Phrase.freeReturns_one, Node.freeReturns_of_plain rfl rfl]
    simp_all [Node.fields, Field.nodes]
  | ifStatement _ htest _ _ _ _ =>
    have htest := htest.freeReturns_eq_zero hc
    rw [Phrase.freeReturns_one, Node.freeReturns_of_plain rfl rfl]
    simp_all [Node.fields, Field.nodes]
  | forStatement _ _ hinit _ htest _ hupdate _ _ ih =>
    have hinit := hinit.freeReturns_eq_zero hc
    have htest := htest.freeReturns_eq_zero hc
    have hupdate := hupdate.freeReturns_eq_zero hc
    rw [Phrase.freeReturns_one, Node.freeReturns_of_plain rfl rfl]
    simp_all [Node.fields, Field.nodes]
  | forOfStatement _ _ hleft _ hright _ _ ih =>
    have hleft := hleft.freeReturns_eq_zero hc
    have hright := hright.freeReturns_eq_zero hc
    rw [Phrase.freeReturns_one, Node.freeReturns_of_plain rfl rfl]
    simp_all [Node.fields, Field.nodes]
  | whileStatement _ htest _ ih =>
    have htest := htest.freeReturns_eq_zero hc
    rw [Phrase.freeReturns_one, Node.freeReturns_of_plain rfl rfl]
    simp_all [Node.fields, Field.nodes]
  | doWhileStatement _ _ _ htest _ ih =>
    have htest := htest.freeReturns_eq_zero hc
    rw [Phrase.freeReturns_one, Node.freeReturns_of_plain rfl rfl]
    simp_all [Node.fields, Field.nodes]
  | catchClause hparam _ ih =>
    have hparam := hparam.freeReturns_eq_zero hc
    rw [Phrase.freeReturns_one, Node.freeReturns_of_plain rfl rfl]
    simp_all [Node.fields, Field.nodes]
  | tryStatement _ _ _ _ _ _ _ _ =>
    rw [Phrase.freeReturns_one, Node.freeReturns_of_plain rfl rfl]
    simp_all [Node.fields, Field.nodes]

/-- There are no such words if and only if the nodes have no free `return`. -/
lemma FreeReturns.eq_nil_iff {c : Context} {separator : Option Kind} {category : Category}
    {ns : List Node} {ts rs : List Token} (h : FreeReturns c (.row separator category ns) ts rs)
    (hc : c.inFunction = false) : rs = [] ↔ ∀ n ∈ ns, n.freeReturns = 0 := by
  rw [← List.length_eq_zero_iff, h.length_eq hc, Phrase.freeReturns_row,
    List.sum_eq_zero_iff_forall_eq_nat, List.forall_mem_map]

/-- The words are tokens of the phrase in their order, and all of them are `return`s. -/
lemma FreeReturns.words {c : Context} {phrase : Phrase} {ts rs : List Token}
    (h : FreeReturns c phrase ts rs) : rs.Sublist ts ∧ ∀ t ∈ rs, Is .kwReturn t := by
  have hlast : ∀ {qs us vs : List Token}, qs.Sublist us → us <:+ vs → qs.Sublist vs :=
    fun hqs hus => hqs.trans hus.sublist
  induction h with
  | none => exact ⟨List.nil_sublist _, List.forall_mem_nil _⟩
  | returnStatement ht =>
    exact ⟨(List.nil_sublist _).cons_cons _, List.forall_mem_singleton.2 ht⟩
  | behind _ _ ih => exact ⟨ih.1.cons _, ih.2⟩
  | rowItem _ _ ihrow ih => exact ⟨ihrow.1.append ih.1, List.forall_mem_append.2 ⟨ihrow.2, ih.2⟩⟩
  | statement _ _ ih | blockStatement _ ih | loopBlock _ ih | loopSingle _ ih => exact ih
  | block _ _ _ ih => exact ⟨(ih.1.trans (List.sublist_append_left _ _)).cons _, ih.2⟩
  | ifStatement _ _ _ _ ihthen ihelse =>
    refine ⟨.cons _ (.trans ?_ (List.sublist_append_right _ _)),
      List.forall_mem_append.2 ⟨ihthen.2, ihelse.2⟩⟩
    exact ihthen.1.append ihelse.1
  | @forStatement _ t u _ ts v _ us w _ vs x _ _ _ _ _ _ _ _ _ _ _ _ ih =>
    exact ⟨hlast ih.1 ⟨t :: u :: (ts ++ v :: (us ++ w :: (vs ++ [x]))), by simp⟩, ih.2⟩
  | @forOfStatement _ t u _ ts v _ us w _ _ _ _ _ _ _ _ _ _ ih =>
    exact ⟨hlast ih.1 ⟨t :: u :: (ts ++ v :: (us ++ [w])), by simp⟩, ih.2⟩
  | whileStatement _ _ _ ih => exact ⟨(ih.1.trans (List.sublist_append_right _ _)).cons _, ih.2⟩
  | doWhileStatement _ _ _ _ _ ih =>
    exact ⟨(ih.1.trans (List.sublist_append_left _ _)).cons _, ih.2⟩
  | catchClause _ _ ih => exact ⟨ih.1.trans (List.sublist_append_right _ _), ih.2⟩
  | tryStatement _ _ _ _ _ ihbody ihhandler ihfinalizer =>
    refine ⟨(ihbody.1.append (ihhandler.1.append ihfinalizer.1)).cons _, ?_⟩
    exact List.forall_mem_append.2 ⟨ihbody.2, List.forall_mem_append.2 ⟨ihhandler.2, ihfinalizer.2⟩⟩

end ScriptTree
