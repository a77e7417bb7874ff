import ScriptTree.Proofs.LockstepGrammar
import ScriptTree.Proofs.Reading
import ScriptTree.Proofs.Tiling

/-!
# Layout does not matter

Two sources with the same lexemes have the same tree or the same fault, however their lexemes are
spread over blanks, lines and comments. Faults are at the same lexemes. This is the case of
`Lockstep` in which both runs move along their own scans by the same number of tokens.
-/

namespace ScriptTree

open ScriptTree.Parser

/-- The same fault at another place. -/
def SyntaxError.withSpan : SyntaxError → Span → SyntaxError
  | unsupportedCharacter character _, span => unsupportedCharacter character span
  | tokenMismatch expected found _, span => tokenMismatch expected found span
  | unexpectedToken found _, span => unexpectedToken found span
  | returnOutsideFunction _, span => returnOutsideFunction span
  | invalidAssignmentTarget _, span => invalidAssignmentTarget span
  | invalidParameters _, span => invalidParameters span
  | invalidAsync _, span => invalidAsync span
  | invalidClassMember _, span => invalidClassMember span
  | missingHandler _, span => missingHandler span
  | invalidRegexFlag flag _, span => invalidRegexFlag flag span
  | nestingTooDeep limit _, span => nestingTooDeep limit span

/-- Scans that both come to the end of their sources, or both stop at the same character. -/
inductive StopAlike : Except SyntaxError Token → Except SyntaxError Token → Prop where
  | done (t u : Token) : StopAlike (.ok t) (.ok u)
  | fault (c : Char) (a b : Span) :
      StopAlike (.error (.unsupportedCharacter c a)) (.error (.unsupportedCharacter c b))

/-- Where a scan stops: at its end token or at the refused character. -/
def stopSpan : Except SyntaxError Token → Span
  | .ok token => token.span
  | .error e => e.span

/-- The spans of all tokens of a scan and of what it stops at. -/
def spots (scan : List Token × Except SyntaxError Token) : List Span :=
  scan.1.map Token.span ++ [stopSpan scan.2]

/-- A span from the start of one spot to the end of another. -/
def Runs (spots : List Span) (i j : Nat) (span : Span) : Prop :=
  ∃ a b, spots[i]? = some a ∧ spots[j]? = some b ∧ span = ⟨a.start, b.stop⟩

/-- Spots that stand in the order of a source. -/
def Ordered (spots : List Span) : Prop :=
  spots.Pairwise fun a b => a.start ≤ b.start ∧ a.stop ≤ b.stop

lemma ordered_spots (source : String) (hsize : source.utf8ByteSize < UInt32.size) :
    Ordered (spots (scanSource source)) := by
  obtain ⟨before, rest, hsource, htiled, hstops⟩ := (Cursor.ofSource source).scan_tiled
  have hlength : byteLength before + byteLength rest = source.utf8ByteSize := by
    rw [← byteLength_toList, ← byteLength_append, ← hsource]
    rfl
  have hzero : (Cursor.ofSource source).offset = 0 := rfl
  rw [hzero, Nat.zero_add] at hstops
  have hstart : (stopSpan (scanSource source).2).start = UInt32.ofNat (0 + byteLength before) ∧
      (stopSpan (scanSource source).2).start ≤ (stopSpan (scanSource source).2).stop := by
    rw [Nat.zero_add]
    unfold scanSource
    generalize (Cursor.ofSource source).scan.2 = last at hstops
    cases hstops with
    | done => exact ⟨rfl, Nat.le_refl _⟩
    | @fault c cs hrule =>
      rw [byteLength_cons] at hlength
      have hspan := Span.toNat_ofOffsets (a := byteLength before)
        (b := byteLength before + c.utf8Size) (by omega) (by omega)
      refine ⟨rfl, ?_⟩
      change (Span.ofOffsets _ _).start ≤ (Span.ofOffsets _ _).stop
      rw [UInt32.le_iff_toNat_le, hspan.1, hspan.2]
      omega
  have hbound : 0 + byteLength before < UInt32.size := by omega
  have hpairwise := Tiled.pairwise_append htiled hbound hstart.1
  have hforward : ∀ a ∈ spots (scanSource source), a.start ≤ a.stop := by
    intro a ha
    rcases List.mem_append.1 ha with htoken | hlast
    · obtain ⟨token, hmem, rfl⟩ := List.mem_map.1 htoken
      exact (Tiled.stop_le htiled hbound hmem).1
    · rw [List.mem_singleton.1 hlast]
      exact hstart.2
  refine List.Pairwise.imp_of_mem ?_ hpairwise
  intro a b ha hb hab
  have hastart := hforward a ha
  have hbstart := hforward b hb
  exact ⟨UInt32.le_trans hastart hab, UInt32.le_trans hab hbstart⟩

lemma Ordered.le_of_le {spots : List Span} (h : Ordered spots) {i j : Nat} {a b : Span}
    (hij : i ≤ j) (ha : spots[i]? = some a) (hb : spots[j]? = some b) :
    a.start ≤ b.start ∧ a.stop ≤ b.stop := by
  by_cases heq : i = j
  · subst heq
    rw [ha] at hb
    cases hb
    exact ⟨UInt32.le_refl _, UInt32.le_refl _⟩
  · obtain ⟨hi, rfl⟩ := List.getElem?_eq_some_iff.1 ha
    obtain ⟨hj, rfl⟩ := List.getElem?_eq_some_iff.1 hb
    exact List.pairwise_iff_getElem.1 h i j hi hj (by omega)

lemma min_eq_of_ge {a b : UInt32} (h : b ≤ a) : min a b = b := by
  change (if a ≤ b then a else b) = b
  by_cases hab : a ≤ b
  · rw [if_pos hab]
    exact UInt32.le_antisymm hab h
  · exact if_neg hab

lemma max_eq_of_ge {a b : UInt32} (h : b ≤ a) : max a b = a := by
  change (if a ≤ b then b else a) = a
  by_cases hab : a ≤ b
  · rw [if_pos hab]
    exact UInt32.le_antisymm h hab
  · exact if_neg hab

lemma Runs.merge {spots : List Span} (h : Ordered spots) {i j k l : Nat} {s t : Span}
    (hs : Runs spots i j s) (ht : Runs spots k l t) :
    Runs spots (min i k) (max j l) (s.merge t) := by
  obtain ⟨a, b, ha, hb, rfl⟩ := hs
  obtain ⟨c, d, hc, hd, rfl⟩ := ht
  have hfirst : ∃ x, spots[min i k]? = some x ∧ x.start = min a.start c.start := by
    by_cases hik : i ≤ k
    · have hle := (h.le_of_le hik ha hc).1
      exact ⟨a, by rwa [Nat.min_eq_left hik], (if_pos hle).symm⟩
    · have hle := (h.le_of_le (Nat.le_of_not_le hik) hc ha).1
      exact ⟨c, by rwa [Nat.min_eq_right (Nat.le_of_not_le hik)], (min_eq_of_ge hle).symm⟩
  have hlast : ∃ y, spots[max j l]? = some y ∧ y.stop = max b.stop d.stop := by
    by_cases hjl : j ≤ l
    · have hle := (h.le_of_le hjl hb hd).2
      exact ⟨d, by rwa [Nat.max_eq_right hjl], (if_pos hle).symm⟩
    · have hle := (h.le_of_le (Nat.le_of_not_le hjl) hd hb).2
      exact ⟨b, by rwa [Nat.max_eq_left (Nat.le_of_not_le hjl)], (max_eq_of_ge hle).symm⟩
  obtain ⟨x, hx, hxstart⟩ := hfirst
  obtain ⟨y, hy, hystop⟩ := hlast
  refine ⟨x, y, hx, hy, ?_⟩
  rw [hxstart, hystop]
  rfl

/-- Scans with the same lexemes and the same ending. -/
structure SameLexemes (A B : List Token × Except SyntaxError Token) : Prop where
  lexemes : A.1.map Token.lexeme = B.1.map Token.lexeme
  stop : StopAlike A.2 B.2

/-- What is used of the scans of two sources. -/
structure Alike (A B : List Token × Except SyntaxError Token) : Prop extends SameLexemes A B where
  ends : ∀ {t u}, A.2 = .ok t → B.2 = .ok u → t.lexeme = u.lexeme
  plain : ∀ t ∈ A.1, t.kind ≠ .backtick
  left : Ordered (spots A)
  right : Ordered (spots B)

namespace Alike

variable {A B : List Token × Except SyntaxError Token}

/-- Readings behind the same number of tokens. -/
def SameStage (A B : List Token × Except SyntaxError Token) (m : Nat) (r s : Reading) : Prop :=
  ∃ i, m + i = A.1.length ∧ r.scan = (A.1.drop i, A.2) ∧ s.scan = (B.1.drop i, B.2)

/-- The same lexeme at the same spot. -/
def SameToken (A B : List Token × Except SyntaxError Token) (t u : Token) : Prop :=
  t.lexeme = u.lexeme ∧ ∃ i : Nat, (spots A)[i]? = some t.span ∧ (spots B)[i]? = some u.span

/-- Spans from the same spot to the same spot. -/
def SameSpan (A B : List Token × Except SyntaxError Token) (a b : Span) : Prop :=
  ∃ i j, i ≤ j ∧ Runs (spots A) i j a ∧ Runs (spots B) i j b

/-- The same fault from the same spot to the same spot. A lexical fault is the one at which the scan
stops. -/
def SameFault (A B : List Token × Except SyntaxError Token) (e f : SyntaxError) : Prop :=
  e.withSpan f.span = f ∧ SameSpan A B e.span f.span ∧
    ∀ c a, e = .unsupportedCharacter c a → A.2 = .error e

lemma length_eq (h : Alike A B) : A.1.length = B.1.length := by
  have hlength := congrArg List.length h.lexemes
  simpa using hlength

lemma lexeme_getElem? (h : Alike A B) {i : Nat} {t u : Token} (ht : A.1[i]? = some t)
    (hu : B.1[i]? = some u) : t.lexeme = u.lexeme := by
  have hmap : (A.1.map Token.lexeme)[i]? = (B.1.map Token.lexeme)[i]? := by rw [h.lexemes]
  rw [List.getElem?_map, List.getElem?_map, ht, hu] at hmap
  exact Option.some.inj hmap

lemma getElem?_of_drop {α : Type} {l rest : List α} {a : α} {i : Nat}
    (h : l.drop i = a :: rest) : l[i]? = some a ∧ l.drop (i + 1) = rest := by
  have hhead : (l.drop i)[0]? = some a := by rw [h]; rfl
  have htail : (l.drop i).drop 1 = rest := by rw [h]; rfl
  rw [List.getElem?_drop, Nat.add_zero] at hhead
  rw [List.drop_drop] at htail
  exact ⟨hhead, htail⟩

lemma spots_getElem? {i : Nat} {t : Token} (h : A.1[i]? = some t) :
    (spots A)[i]? = some t.span := by
  have hlt := (List.getElem?_eq_some_iff.1 h).1
  unfold spots
  rw [List.getElem?_append_left (by simpa using hlt), List.getElem?_map, h]
  rfl

lemma spots_last : (spots A)[A.1.length]? = some (stopSpan A.2) := by
  unfold spots
  rw [List.getElem?_append_right (by simp)]
  simp

/-- Where a scan of the first source is at its end, so is one of the second. -/
lemma drop_eq_nil_iff (h : Alike A B) (i : Nat) : A.1.drop i = [] ↔ B.1.drop i = [] := by
  rw [List.drop_eq_nil_iff, List.drop_eq_nil_iff, h.length_eq]

/-- Readings at one stage are both at the end of their sources or both in front of a token. -/
lemma SameStage.cases (h : Alike A B) {m : Nat} {r s : Reading} (hr : SameStage A B m r s) :
    (r.lookahead.kind = .endOfFile ∧ s.lookahead.kind = .endOfFile ∧
      A.2 = .ok r.lookahead ∧ B.2 = .ok s.lookahead) ∨
    ∃ i, m + i = A.1.length ∧ r.lookahead.kind ≠ .endOfFile ∧ s.lookahead.kind ≠ .endOfFile ∧
      A.1[i]? = some r.lookahead ∧ B.1[i]? = some s.lookahead ∧
      r.cursor.scan = (A.1.drop (i + 1), A.2) ∧ s.cursor.scan = (B.1.drop (i + 1), B.2) := by
  obtain ⟨i, hi, hA, hB⟩ := hr
  have hnil := h.drop_eq_nil_iff i
  by_cases hrend : r.lookahead.kind = .endOfFile
  · rw [Reading.scan_of_end hrend, Prod.mk.injEq] at hA
    have hBnil := hnil.1 hA.1.symm
    by_cases hsend : s.lookahead.kind = .endOfFile
    · rw [Reading.scan_of_end hsend, Prod.mk.injEq] at hB
      exact Or.inl ⟨hrend, hsend, hA.2.symm, hB.2.symm⟩
    · rw [Reading.scan_of_token hsend, Prod.mk.injEq, hBnil] at hB
      cases hB.1
  · rw [Reading.scan_of_token hrend, Prod.mk.injEq] at hA
    obtain ⟨hA1, hA2⟩ := getElem?_of_drop hA.1.symm
    by_cases hsend : s.lookahead.kind = .endOfFile
    · rw [Reading.scan_of_end hsend, Prod.mk.injEq] at hB
      rw [hnil.2 hB.1.symm] at hA
      cases hA.1
    · rw [Reading.scan_of_token hsend, Prod.mk.injEq] at hB
      obtain ⟨hB1, hB2⟩ := getElem?_of_drop hB.1.symm
      refine Or.inr ⟨i, hi, hrend, hsend, hA1, hB1, ?_, ?_⟩
      · rw [hA2, ← hA.2]
      · rw [hB2, ← hB.2]

lemma sameToken_of_sameStage (h : Alike A B) {m : Nat} {r s : Reading}
    (hr : SameStage A B m r s) : SameToken A B r.lookahead s.lookahead := by
  rcases hr.cases h with ⟨-, -, hA, hB⟩ | ⟨i, -, -, -, hA, hB, -, -⟩
  · refine ⟨h.ends hA hB, A.1.length, ?_, ?_⟩
    · rw [spots_last, hA]
      rfl
    · rw [h.length_eq, spots_last, hB]
      rfl
  · exact ⟨h.lexeme_getElem? hA hB, i, spots_getElem? hA, spots_getElem? hB⟩

lemma sameFault_of_stop (h : Alike A B) {e f : SyntaxError} (hA : A.2 = .error e)
    (hB : B.2 = .error f) : SameFault A B e f := by
  have hstop := h.stop
  rw [hA, hB] at hstop
  have hruns : ∀ {C : List Token × Except SyntaxError Token} {e : SyntaxError},
      C.2 = .error e → Runs (spots C) C.1.length C.1.length e.span := by
    intro C e hC
    have hlast := spots_last (A := C)
    rw [hC] at hlast
    exact ⟨e.span, e.span, hlast, hlast, rfl⟩
  refine ⟨?_, ⟨A.1.length, A.1.length, Nat.le_refl _, hruns hA, ?_⟩, fun c a he => hA⟩
  · cases hstop
    rfl
  · rw [h.length_eq]
    exact hruns hB

/-- Behind the same tokens, both runs read a token or both meet the fault at which they stop. -/
lemma next_agrees_of_scan (h : Alike A B) {x y : Cursor} {i m : Nat} (hi : i ≤ A.1.length)
    (hm : A.1.length - i < m) (hx : x.scan = (A.1.drop i, A.2)) (hy : y.scan = (B.1.drop i, B.2)) :
    NextAgrees (SameStage A B) (SameFault A B) m x.next y.next := by
  have hstop := h.stop
  rcases x.next_cases with ⟨e, a, hr, hscan⟩ | ⟨t, a, hr, hscan⟩
  · rw [hx, Prod.mk.injEq] at hscan
    rcases y.next_cases with ⟨f, b, hs, hscan'⟩ | ⟨u, b, hs, hscan'⟩
    · rw [hy, Prod.mk.injEq] at hscan'
      rw [hr, hs]
      exact NextAgrees.fault (h.sameFault_of_stop hscan.2 hscan'.2)
    · -- nothing but a fault is left of the first scan, and a token of the second
      rw [hscan.2] at hstop
      rw [hy, (h.drop_eq_nil_iff i).1 hscan.1] at hscan'
      generalize B.2 = stop at hstop hscan'
      cases hstop
      exact absurd hscan'.symm (Reading.scan_ne_error _ _)
  · rcases y.next_cases with ⟨f, b, hs, hscan'⟩ | ⟨u, b, hs, hscan'⟩
    · rw [hy, Prod.mk.injEq] at hscan'
      rw [hscan'.2] at hstop
      rw [hx, (h.drop_eq_nil_iff i).2 hscan'.1] at hscan
      generalize A.2 = stop at hstop hscan
      cases hstop
      exact absurd hscan.symm (Reading.scan_ne_error _ _)
    · rw [hr, hs]
      exact NextAgrees.token hm ⟨i, by omega, hscan ▸ hx, hscan' ▸ hy⟩

lemma next_agrees (h : Alike A B) {m : Nat} {r s : Reading} (hr : SameStage A B m r s)
    (hkind : r.lookahead.kind ≠ .endOfFile) :
    NextAgrees (SameStage A B) (SameFault A B) m r.cursor.next s.cursor.next := by
  rcases hr.cases h with ⟨hend, -⟩ | ⟨i, hi, -, -, hA1, -, hA, hB⟩
  · exact absurd hend hkind
  · have hlt : i < A.1.length := (List.getElem?_eq_some_iff.1 hA1).1
    exact h.next_agrees_of_scan (by omega) (by omega) hA hB

lemma sameSpan_of_sameToken {t u : Token} (h : SameToken A B t u) :
    SameSpan A B t.span u.span := by
  obtain ⟨-, i, ht, hu⟩ := h
  exact ⟨i, i, Nat.le_refl i, ⟨t.span, t.span, ht, ht, rfl⟩, ⟨u.span, u.span, hu, hu, rfl⟩⟩

lemma sameSpan_merge (h : Alike A B) {a b c d : Span} (hab : SameSpan A B a b)
    (hcd : SameSpan A B c d) : SameSpan A B (a.merge c) (b.merge d) := by
  obtain ⟨i, j, hij, ha, hb⟩ := hab
  obtain ⟨k, l, hkl, hc, hd⟩ := hcd
  exact ⟨min i k, max j l, by omega, ha.merge h.left hc, hb.merge h.right hd⟩

lemma inFunction_of_eq {c d : Context} (h : c = d) :
    ({ c with inFunction := true } : Context) = { d with inFunction := true } := by
  rw [h]

lemma mayReturn_of_eq {c d : Context} {_ : Span} (h : c = d) :
    c.inFunction = d.inFunction ∨ c.inFunction = false ∧ False :=
  Or.inl (congrArg Context.inFunction h)

/-- Two runs over scans with the same lexemes. No fault is excused and no template is read. -/
def lockstep (h : Alike A B) : Lockstep where
  reading := SameStage A B
  piece := fun _ _ _ => False
  context := Eq
  token := SameToken A B
  span := SameSpan A B
  fault := SameFault A B
  excused := fun _ => False
  templates := False
  lookahead := h.sameToken_of_sameStage
  kind_eq := fun htu => congrArg Prod.fst htu.1
  text_eq := fun htu => congrArg Prod.snd htu.1
  span_token := sameSpan_of_sameToken
  span_merge := h.sameSpan_merge
  next := h.next_agrees
  backtick := by
    intro m r s hr hkind
    rcases hr.cases h with ⟨hend, -⟩ | ⟨i, -, -, -, hA, -⟩
    · rw [hend] at hkind
      cases hkind
    · exact h.plain _ (List.mem_of_getElem? hA) hkind
  nextTemplate := fun hfalse => False.elim hfalse
  pieces := False.elim
  mismatch := by
    intro t u kind htu hne
    have hkind : t.kind = u.kind := congrArg Prod.fst htu.1
    rw [hkind]
    exact ⟨rfl, sameSpan_of_sameToken htu, fun c a he => by cases he⟩
  unexpected := by
    intro t u htu
    have hkind : t.kind = u.kind := congrArg Prod.fst htu.1
    rw [hkind]
    exact ⟨rfl, sameSpan_of_sameToken htu, fun c a he => by cases he⟩
  located := by
    intro make a b hmake hspan
    cases hmake <;> exact ⟨rfl, hspan, fun c a he => by cases he⟩
  inFunction := @inFunction_of_eq
  mayReturn := @mayReturn_of_eq
  deeper := by
    rintro c d m r s rfl hr
    have hspan := sameSpan_of_sameToken (h.sameToken_of_sameStage hr)
    by_cases hlimit : c.limit ≤ c.depth
    · exact Or.inl ⟨hlimit, hlimit, rfl, hspan, fun c a he => by cases he⟩
    · exact Or.inr (Or.inr ⟨Nat.lt_of_not_le hlimit, Nat.lt_of_not_le hlimit, rfl⟩)

end Alike

lemma alike_of_sources {a b : String} (ha : a.utf8ByteSize < UInt32.size)
    (hb : b.utf8ByteSize < UInt32.size) (hsame : SameLexemes (scanSource a) (scanSource b))
    (hplain : ∀ t ∈ (scanSource a).1, t.kind ≠ .backtick) :
    Alike (scanSource a) (scanSource b) where
  toSameLexemes := hsame
  plain := hplain
  left := ordered_spots a ha
  right := ordered_spots b hb
  ends := by
    intro t u ht hu
    have hlexeme : ∀ {source : String} {t : Token}, (scanSource source).2 = .ok t →
        t.lexeme = (.endOfFile, "") := by
      intro source t ht
      rcases (Cursor.ofSource source).scan_stops with ⟨offset, hstop⟩ | ⟨c, span, hstop⟩
      · rw [scanSource, hstop] at ht
        cases ht
        rfl
      · rw [scanSource, hstop] at ht
        cases ht
    rw [hlexeme ht, hlexeme hu]

/-- What is said of two sources with the same lexemes, from their scans. -/
lemma parse_of_alike {a b : String} (h : Alike (scanSource a) (scanSource b)) (limit : Nat) :
    (∃ tree stop, parse a limit = .ok tree ∧ parse b limit = .ok tree ∧
      (scanSource a).2 = .ok stop) ∨
    ∃ e f, parse a limit = .error e ∧ parse b limit = .error f ∧
      Alike.SameFault (scanSource a) (scanSource b) e f := by
  have ha : (scanSource a).1.length < (Cursor.ofSource a).rest.length + 2 :=
    Nat.lt_add_right 1 (Nat.lt_succ_of_le (Cursor.scan_length_le _))
  have hb : (scanSource a).1.length < (Cursor.ofSource b).rest.length + 2 := by
    rw [h.length_eq]
    exact Nat.lt_add_right 1 (Nat.lt_succ_of_le (Cursor.scan_length_le _))
  have hstart := h.next_agrees_of_scan (x := Cursor.ofSource a) (y := Cursor.ofSource b)
    (Nat.zero_le _) (Nat.lt_succ_self _) rfl rfl
  generalize hx : (Cursor.ofSource a).next = x at hstart
  generalize hy : (Cursor.ofSource b).next = y at hstart
  cases hstart with
  | fault hfault => exact Or.inr ⟨_, _, parse_of_fault hx, parse_of_fault hy, hfault⟩
  | @token k t u after after' hk hreading =>
    have hkn : k ≤ (scanSource a).1.length := Nat.le_of_lt_succ hk
    have hprogram : h.lockstep.Outcome (h.lockstep.Below (k + 1) Eq)
        (programOf a limit t after) (programOf b limit u after') :=
      Lockstep.program_tries (n := k) (Nat.lt_of_le_of_lt hkn ha) (Nat.lt_of_le_of_lt hkn hb)
        ⟨Nat.le_refl k, rfl, hreading⟩
    generalize hleft : programOf a limit t after = left at hprogram
    generalize hright : programOf b limit u after' = right at hprogram
    cases hprogram with
    | @ok tree tree' r s hpost =>
      obtain ⟨rfl, l, -, i, -, hscan, -⟩ := hpost
      rw [Reading.scan_of_end (program_at_end hleft), Prod.mk.injEq] at hscan
      exact Or.inl ⟨tree, r.lookahead, parse_of_ok hx hleft, parse_of_ok hy hright, hscan.2.symm⟩
    | fault hfault =>
      exact Or.inr ⟨_, _, parse_of_rejected hx hleft, parse_of_rejected hy hright, hfault⟩
    | misspelt htoken =>
      exact Or.inr ⟨_, _, parse_of_misspelt hx hleft, parse_of_misspelt hy hright,
        h.lockstep.unexpected htoken⟩
    | excused hfalse => exact False.elim hfalse

/-- Sources with the same lexemes have the same tree, or the same fault from the start of the same
spot to the end of the same spot. A source that has a tree has no lexical fault, and a lexical fault
that is reported is the one at which the scan stops. -/
theorem parse_eq_of_sameLexemes (a b : String) (limit : Nat) (ha : a.utf8ByteSize < UInt32.size)
    (hb : b.utf8ByteSize < UInt32.size) (hsame : SameLexemes (scanSource a) (scanSource b))
    (hplain : ∀ t ∈ (scanSource a).1, t.kind ≠ .backtick) :
    ((∃ tree, parse a limit = .ok tree ∧ parse b limit = .ok tree) ∨
      ∃ e f, parse a limit = .error e ∧ parse b limit = .error f ∧ e.withSpan f.span = f ∧
        ∃ i j, i ≤ j ∧ Runs (spots (scanSource a)) i j e.span ∧
          Runs (spots (scanSource b)) i j f.span) ∧
    (∀ tree, parse a limit = .ok tree → ∃ tokens, tokenize a = .ok tokens) ∧
    (∀ c span, parse a limit = .error (.unsupportedCharacter c span) →
      tokenize a = .error (.unsupportedCharacter c span)) := by
  have halike := alike_of_sources ha hb hsame hplain
  rw [tokenize_eq_scan]
  rcases parse_of_alike halike limit with ⟨tree, stop, htree, htree', hstop⟩ |
    ⟨e, f, he, hf, hpayload, hspan, hlexical⟩
  · refine ⟨Or.inl ⟨tree, htree, htree'⟩, fun _ _ => ⟨_, by rw [hstop]; rfl⟩, fun c span h => ?_⟩
    rw [htree] at h
    cases h
  · refine ⟨Or.inr ⟨e, f, he, hf, hpayload, hspan⟩, fun tree h => ?_, fun c span h => ?_⟩
    · rw [he] at h
      cases h
    · rw [he, Except.error.injEq] at h
      rw [hlexical c span h, h]
      rfl

theorem same_fault_in_two_layouts :
    SameLexemes (scanSource "(a+1)=>b") (scanSource "(a // é\n+ 1 )/**/=> b") ∧
      ∃ e f, parse "(a+1)=>b" = .error e ∧ parse "(a // é\n+ 1 )/**/=> b" = .error f ∧
        e.withSpan f.span = f ∧ ∃ i j, i ≤ j ∧ Runs (spots (scanSource "(a+1)=>b")) i j e.span ∧
          Runs (spots (scanSource "(a // é\n+ 1 )/**/=> b")) i j f.span := by
  have hleft : (scanSource "(a+1)=>b").2 = .ok (.endOfFile 8) := by decide +kernel
  have hright : (scanSource "(a // é\n+ 1 )/**/=> b").2 = .ok (.endOfFile 22) := by decide +kernel
  have hsame : SameLexemes (scanSource "(a+1)=>b") (scanSource "(a // é\n+ 1 )/**/=> b") := {
    lexemes := by decide +kernel
    stop := by
      rw [hleft, hright]
      exact StopAlike.done _ _ }
  have hrefused : (parse "(a+1)=>b").toOption.isNone = true := by decide +kernel
  have hparse := parse_eq_of_sameLexemes _ _ defaultLimit (by decide) (by decide) hsame
    (by decide +kernel)
  refine ⟨hsame, hparse.1.resolve_left ?_⟩
  rintro ⟨tree, htree, -⟩
  rw [htree] at hrefused
  cases hrefused

end ScriptTree
