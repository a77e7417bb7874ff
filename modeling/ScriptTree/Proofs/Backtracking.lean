import ScriptTree.Proofs.Scan

/-!
# Backtracking

Regular expressions with ordered choice. `Regex.ends` lists the places where a match can end, in the
order in which a backtracking matcher comes to them, so the first one is the match. A repetition
tries one more round before it stops, or after it if the repetition is lazy.

What follows a part of an expression decides which of its ends is taken. `Regex.through` is the
result at the first end from which the matching goes on, and it has one equation for each operator.

Main statements: `Regex.through_star_one_of_isSome` and `Regex.through_star_one_of_none`, when a
greedy repetition takes the longest run; `Regex.find?_anchored`.
-/

namespace ScriptTree

/-- A place in a text: the characters in front of it, the nearest one first, and those behind it. -/
structure Spot where
  before : List Char
  after : List Char

namespace Spot

/-- The place `n` characters further on. -/
def advance (s : Spot) (n : Nat) : Spot :=
  ⟨(s.after.take n).reverse ++ s.before, s.after.drop n⟩

/-- Whether a word begins or ends here. -/
def isBoundary (s : Spot) : Bool :=
  s.before.head?.any isWordChar != s.after.head?.any isWordChar

/-- The places behind any number of rounds of a step. Only a round that moves on is followed by
another one. -/
def rounds (lazy : Bool) (step : Spot → List Spot) (s : Spot) : List Spot :=
  let more := ((step s).filter fun e => e.after.length < s.after.length).attach.flatMap
    fun e => rounds lazy step e.1
  if lazy then s :: more else more ++ [s]
termination_by s.after.length
decreasing_by simpa using (List.mem_filter.1 e.2).2

@[simp] lemma advance_zero (s : Spot) : s.advance 0 = s := rfl

@[simp] lemma advance_after (s : Spot) (n : Nat) : (s.advance n).after = s.after.drop n := rfl

lemma advance_cons (b : List Char) (c : Char) (cs : List Char) (n : Nat) :
    (⟨b, c :: cs⟩ : Spot).advance (n + 1) = (⟨c :: b, cs⟩ : Spot).advance n := by
  simp [advance]

lemma advance_advance (s : Spot) (m n : Nat) : (s.advance m).advance n = s.advance (m + n) := by
  simp only [advance, List.drop_drop, List.take_add, List.reverse_append, List.append_assoc]

lemma advance_append (b w cs : List Char) (n : Nat) :
    (⟨b, w ++ cs⟩ : Spot).advance (n + w.length) = (⟨w.reverse ++ b, cs⟩ : Spot).advance n := by
  have hfront : (⟨b, w ++ cs⟩ : Spot).advance w.length = ⟨w.reverse ++ b, cs⟩ := by simp [advance]
  rw [Nat.add_comm, ← advance_advance, hfront]

end Spot

/-- Regular expressions. -/
inductive Regex where
  | empty
  /-- The beginning of the text. -/
  | start
  /-- The beginning or the end of a word. -/
  | boundary
  /-- One character of a class. -/
  | one (p : Char → Bool)
  | seq (r t : Regex)
  /-- The first alternative, and only if that leads nowhere the second. -/
  | alt (r t : Regex)
  | repetition (lazy : Bool) (r : Regex)

namespace Regex

/-- Where a match that begins at a place can end, in the order in which the ends are tried. -/
def ends : Regex → Spot → List Spot
  | empty, s => [s]
  | start, s => if s.before.isEmpty then [s] else []
  | boundary, s => if s.isBoundary then [s] else []
  | one p, s => if s.after.head?.any p then [s.advance 1] else []
  | seq r t, s => (r.ends s).flatMap t.ends
  | alt r t, s => r.ends s ++ t.ends s
  | repetition lazy r, s => s.rounds lazy r.ends

/-- As often as it goes on. -/
def star (r : Regex) : Regex :=
  repetition false r

/-- As seldom as it goes on. -/
def lazyStar (r : Regex) : Regex :=
  repetition true r

/-- At least once, as often as it goes on. -/
def plus (r : Regex) : Regex :=
  seq r (star r)

/-- Once if it goes on. -/
def opt (r : Regex) : Regex :=
  alt r empty

/-- A fixed text. -/
def lit : List Char → Regex
  | [] => empty
  | [c] => one (· == c)
  | c :: cs => seq (one (· == c)) (lit cs)

/-- The first of some fixed texts that goes on. -/
def oneOf : List (List Char) → Regex
  | [] => one fun _ => false
  | [w] => lit w
  | w :: ws => alt (lit w) (oneOf ws)

/-- Only at the beginning of the text. -/
def anchored (r : Regex) : Regex :=
  seq start r

/-- The text from a place to the first end of a match, and what is behind it. -/
def matchAt? (r : Regex) (s : Spot) : Option (List Char × List Char) :=
  (r.ends s).head?.map fun stop =>
    ((stop.before.take (stop.before.length - s.before.length)).reverse, stop.after)

/-- The match that begins first, from a place on. -/
def findFrom? (r : Regex) : List Char → List Char → Option (List Char × List Char)
  | before, [] => r.matchAt? ⟨before, []⟩
  | before, c :: after => (r.matchAt? ⟨before, c :: after⟩).or (r.findFrom? (c :: before) after)

/-- The match that begins first in a text, and what is behind it. -/
def find? (r : Regex) (cs : List Char) : Option (List Char × List Char) :=
  r.findFrom? [] cs

variable {α : Type}

/-- The result at the first end of a match from which the matching goes on. -/
def through (r : Regex) (k : Spot → Option α) (s : Spot) : Option α :=
  (r.ends s).findSome? k

/-- Every match takes at least one character. -/
def Consumes (r : Regex) : Prop :=
  ∀ s, ∀ e ∈ r.ends s, e.after.length < s.after.length

section Through

variable (k : Spot → Option α) (s : Spot)

lemma findSome?_flatMap {β γ : Type} (l : List β) (f : β → List γ) (g : γ → Option α) :
    (l.flatMap f).findSome? g = l.findSome? fun b => (f b).findSome? g := by
  induction l with
  | nil => rfl
  | cons b l ih =>
    rw [List.flatMap_cons, List.findSome?_append, ih, List.findSome?_cons]
    cases (f b).findSome? g <;> rfl

@[simp] lemma through_empty : empty.through k s = k s := by
  simp [through, ends]

@[simp] lemma through_start : start.through k s = if s.before.isEmpty then k s else none := by
  unfold through ends
  split <;> simp

@[simp] lemma through_boundary : boundary.through k s = if s.isBoundary then k s else none := by
  unfold through ends
  split <;> simp

@[simp] lemma through_one (p : Char → Bool) :
    (one p).through k s = if s.after.head?.any p then k (s.advance 1) else none := by
  unfold through ends
  split <;> simp

@[simp] lemma through_seq (r t : Regex) : (seq r t).through k s = r.through (t.through k) s :=
  findSome?_flatMap _ _ _

@[simp] lemma through_alt (r t : Regex) :
    (alt r t).through k s = (r.through k s).or (t.through k s) :=
  List.findSome?_append

@[simp] lemma through_opt (r : Regex) : r.opt.through k s = (r.through k s).or (k s) := by
  simp [opt]

lemma ends_repetition {r : Regex} (h : r.Consumes) (lazy : Bool) :
    (repetition lazy r).ends s =
      if lazy then s :: (r.ends s).flatMap (repetition lazy r).ends
      else (r.ends s).flatMap (repetition lazy r).ends ++ [s] := by
  have hall : ((r.ends s).filter fun e => e.after.length < s.after.length) = r.ends s :=
    List.filter_eq_self.2 fun e he => by simpa using h s e he
  have hrounds : (repetition lazy r).ends = Spot.rounds lazy r.ends := by
    funext e
    rfl
  rw [hrounds, Spot.rounds, hall]
  simp

lemma through_star {r : Regex} (h : r.Consumes) :
    r.star.through k s = (r.through (r.star.through k) s).or (k s) := by
  have hends : r.star.ends s = (r.ends s).flatMap r.star.ends ++ [s] := ends_repetition s h false
  unfold through
  rw [hends, List.findSome?_append, findSome?_flatMap]
  simp

lemma through_lazyStar {r : Regex} (h : r.Consumes) :
    r.lazyStar.through k s = (k s).or (r.through (r.lazyStar.through k) s) := by
  have hends : r.lazyStar.ends s = s :: (r.ends s).flatMap r.lazyStar.ends :=
    ends_repetition s h true
  unfold through
  rw [hends, List.findSome?_cons, findSome?_flatMap]
  cases k s <;> rfl

end Through

lemma consumes_one (p : Char → Bool) : (one p).Consumes := by
  intro s e he
  simp only [ends] at he
  split at he
  next hp =>
    rw [List.mem_singleton.1 he]
    rcases hafter : s.after with _ | ⟨c, cs⟩
    · rw [hafter] at hp
      cases hp
    · simp [hafter]
  next => cases he

lemma through_one_cons (k : Spot → Option α) (p : Char → Bool) (b : List Char) (c : Char)
    (cs : List Char) :
    (one p).through k ⟨b, c :: cs⟩ = if p c then k ⟨c :: b, cs⟩ else none := by
  simp [Spot.advance]

lemma through_star_one_nil (k : Spot → Option α) (p : Char → Bool) (b : List Char) :
    (star (one p)).through k ⟨b, []⟩ = k ⟨b, []⟩ := by
  simp [through_star _ _ (consumes_one p)]

lemma through_star_one_cons (k : Spot → Option α) (p : Char → Bool) (b : List Char) (c : Char)
    (cs : List Char) :
    (star (one p)).through k ⟨b, c :: cs⟩ =
      if p c then ((star (one p)).through k ⟨c :: b, cs⟩).or (k ⟨b, c :: cs⟩)
      else k ⟨b, c :: cs⟩ := by
  rw [through_star _ _ (consumes_one p), through_one_cons]
  split <;> rfl

/-- A greedy repetition of one class takes the longest run if the matching goes on from there. -/
theorem through_star_one_of_isSome {k : Spot → Option α} {p : Char → Bool} (s : Spot)
    (h : (k (s.advance (runLength p s.after))).isSome = true) :
    (star (one p)).through k s = k (s.advance (runLength p s.after)) := by
  obtain ⟨b, cs⟩ := s
  induction cs generalizing b with
  | nil => exact through_star_one_nil k p b
  | cons c cs ih =>
    rw [through_star_one_cons]
    by_cases hc : p c = true
    · have hrun : runLength p (c :: cs) = runLength p cs + 1 := by simp [runLength, hc]
      simp only [hrun, Spot.advance_cons] at h ⊢
      rw [if_pos hc, ih (c :: b) h, Option.or_of_isSome h]
    · have hrun : runLength p (c :: cs) = 0 := by simp [runLength, hc]
      rw [if_neg hc, hrun, Spot.advance_zero]

/-- So it does if the matching never goes on in front of a character of the class. -/
theorem through_star_one_of_none {k : Spot → Option α} {p : Char → Bool}
    (h : ∀ b c cs, p c = true → k ⟨b, c :: cs⟩ = none) (s : Spot) :
    (star (one p)).through k s = k (s.advance (runLength p s.after)) := by
  obtain ⟨b, cs⟩ := s
  induction cs generalizing b with
  | nil => exact through_star_one_nil k p b
  | cons c cs ih =>
    rw [through_star_one_cons]
    by_cases hc : p c = true
    · have hrun : runLength p (c :: cs) = runLength p cs + 1 := by simp [runLength, hc]
      rw [if_pos hc, h b c cs hc, Option.or_none, ih (c :: b), hrun, Spot.advance_cons]
    · have hrun : runLength p (c :: cs) = 0 := by simp [runLength, hc]
      rw [if_neg hc, hrun, Spot.advance_zero]

/-- At least one character, where a repetition of their class takes the longest run. -/
lemma through_plus_one {k : Spot → Option α} {p : Char → Bool}
    (h : ∀ s, (star (one p)).through k s = k (s.advance (runLength p s.after))) (s : Spot) :
    (plus (one p)).through k s =
      if runLength p s.after = 0 then none else k (s.advance (runLength p s.after)) := by
  obtain ⟨b, cs⟩ := s
  rw [plus, through_seq]
  cases cs with
  | nil => simp [runLength]
  | cons c cs =>
    rw [through_one_cons]
    by_cases hc : p c = true
    · have hrun : runLength p (c :: cs) = runLength p cs + 1 := by simp [runLength, hc]
      rw [if_pos hc, h, hrun, if_neg (Nat.succ_ne_zero _), Spot.advance_cons]
    · simp [runLength, hc]

lemma through_lit (k : Spot → Option α) (w : List Char) (s : Spot) :
    (lit w).through k s = if w.isPrefixOf s.after then k (s.advance w.length) else none := by
  obtain ⟨b, cs⟩ := s
  fun_induction lit w generalizing b cs with
  | case1 => simp
  | case2 c =>
    cases cs with
    | nil => simp
    | cons d cs =>
      rw [through_one_cons, List.isPrefixOf_cons_cons, List.length_singleton, Spot.advance_cons]
      by_cases hd : d = c
      · simp [hd]
      · simp [hd, Ne.symm hd]
  | case3 c w hw ih =>
    rw [through_seq]
    cases cs with
    | nil => simp
    | cons d cs =>
      rw [through_one_cons, ih, List.isPrefixOf_cons_cons, List.length_cons, Spot.advance_cons]
      by_cases hd : d = c
      · simp [hd]
      · simp [hd, Ne.symm hd]

lemma through_lit_append (k : Spot → Option α) (w b cs : List Char) :
    (lit w).through k ⟨b, w ++ cs⟩ = k ⟨w.reverse ++ b, cs⟩ := by
  rw [through_lit, if_pos (List.isPrefixOf_iff_prefix.2 (List.prefix_append w cs))]
  simp [Spot.advance]

lemma through_lit_of_not {k : Spot → Option α} {w : List Char} {s : Spot} (h : ¬w <+: s.after) :
    (lit w).through k s = none := by
  rw [through_lit, if_neg fun hfront => h (List.isPrefixOf_iff_prefix.1 hfront)]

lemma through_lit_singleton (k : Spot → Option α) (c : Char) (s : Spot) :
    (lit [c]).through k s = if s.after.head? = some c then k (s.advance 1) else none := by
  rw [lit, through_one]
  cases s.after.head? <;> simp

lemma through_lit_cons (k : Spot → Option α) (c : Char) (w : List Char) (s : Spot) :
    (lit (c :: w)).through k s = (lit [c]).through ((lit w).through k) s := by
  cases w with
  | nil =>
    have hempty : (lit []).through k = k := funext fun t => through_empty k t
    rw [hempty]
  | cons d w => exact through_seq k s _ _

lemma through_oneOf (k : Spot → Option α) (ws : List (List Char)) (s : Spot) :
    (oneOf ws).through k s =
      ws.findSome? fun w => if w.isPrefixOf s.after then k (s.advance w.length) else none := by
  fun_induction oneOf ws with
  | case1 => simp
  | case2 w => simp [through_lit]
  | case3 w ws hws ih =>
    rw [through_alt, ih, through_lit, List.findSome?_cons]
    split
    next => cases k (s.advance w.length) <;> rfl
    next => rw [Option.none_or]

lemma head?_ends (r : Regex) (s : Spot) : (r.ends s).head? = r.through some s := by
  unfold through
  cases r.ends s <;> rfl

lemma findFrom?_anchored {r : Regex} {before : List Char} (h : before ≠ []) (after : List Char) :
    (anchored r).findFrom? before after = none := by
  have hnone : ∀ before after, before ≠ [] →
      (anchored r).matchAt? ⟨before, after⟩ = none := by
    intro before after hbefore
    simp [matchAt?, head?_ends, anchored, hbefore]
  induction after generalizing before with
  | nil => exact hnone _ _ h
  | cons c after ih =>
    rw [findFrom?, hnone _ _ h, Option.none_or]
    exact ih (List.cons_ne_nil c before)

/-- An anchored expression matches at the front of a text or nowhere. -/
theorem find?_anchored (r : Regex) (cs : List Char) :
    (anchored r).find? cs =
      (r.through some ⟨[], cs⟩).map fun stop => (stop.before.reverse, stop.after) := by
  have hfront : (anchored r).matchAt? ⟨[], cs⟩ =
      (r.through some ⟨[], cs⟩).map fun stop => (stop.before.reverse, stop.after) := by
    simp [matchAt?, head?_ends, anchored]
  unfold find?
  cases cs with
  | nil => exact hfront
  | cons c cs =>
    rw [findFrom?, findFrom?_anchored (List.cons_ne_nil c []), Option.or_none, hfront]

end Regex

end ScriptTree
