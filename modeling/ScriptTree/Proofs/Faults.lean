import ScriptTree.Command.Report
import ScriptTree.Proofs.Lines
import ScriptTree.Proofs.Pieces
import ScriptTree.Proofs.Positions
import ScriptTree.Proofs.Threshold
import ScriptTree.Proofs.Tiling

/-!
# Where faults are

The spans of faults come from tokens, from two tokens merged, and from refused characters. All of
these stand in the source, and a token that the grammar refuses is one that the lexical rules read at
its place: template text never gets that far, since a template takes it whatever it is. So a run is
compared with itself here, by a `Lockstep` of which the faults are those that are where they say.

Main statement: `faults_point_at_text`.
-/

namespace ScriptTree

open ScriptTree.Parser

/-- An offset at which a character of the source begins, or the source ends. -/
def IsBoundary (source : String) (offset : Nat) : Prop :=
  ∃ before after, source.toList = before ++ after ∧ byteLength before = offset

/-- A span of whole characters of a source. -/
structure Span.Within (span : Span) (source : String) : Prop where
  start_le_stop : span.start ≤ span.stop
  stop_le : span.stop.toNat ≤ source.utf8ByteSize
  start : IsBoundary source span.start.toNat
  stop : IsBoundary source span.stop.toNat

/-- What stands at a span: the end of the source, or a token of a kind, as reading from there shows. -/
inductive Found (source : String) : Kind → Span → Prop where
  | done : Found source .endOfFile (.ofOffsets source.utf8ByteSize source.utf8ByteSize)
  | token {rest : List Char} {token : Token} (hpos : token.span.start < token.span.stop)
      (hrest : dropBytes token.span.start.toNat source.toList = some rest)
      (hread : (⟨token.span.start.toNat, rest⟩ : Cursor).peek = .ok token) :
      Found source token.kind token.span

/-- What a fault says about the text at its span is so. -/
def SyntaxError.Fits (source : String) : SyntaxError → Prop
  | .unsupportedCharacter character span => span.text source = character.toString
  | .tokenMismatch expected found span => expected ≠ found ∧ Found source found span
  | .unexpectedToken found span => Found source found span
  | _ => True

/-- A fault that is where it says. -/
structure SyntaxError.Placed (source : String) (e : SyntaxError) : Prop where
  within : e.span.Within source
  fits : e.Fits source

/-- A cursor that has its offset and its rest from a source. -/
def Cursor.In (source : String) (cursor : Cursor) : Prop :=
  ∃ before, source.toList = before ++ cursor.rest ∧ cursor.offset = byteLength before

namespace Cursor.In

variable {source : String} {cursor : Cursor}

lemma ofSource (source : String) : (Cursor.ofSource source).In source :=
  ⟨[], rfl, rfl⟩

lemma behind (h : cursor.In source) {passed rest : List Char} (hrest : cursor.rest = passed ++ rest) :
    (⟨cursor.offset + byteLength passed, rest⟩ : Cursor).In source := by
  obtain ⟨before, hsource, hoffset⟩ := h
  refine ⟨before ++ passed, ?_, ?_⟩
  · rw [hsource, hrest, List.append_assoc]
  · rw [hoffset, byteLength_append]

lemma skip (h : cursor.In source) (n : Nat) : (cursor.skip n).In source :=
  h.behind (List.take_append_drop n cursor.rest).symm

lemma isBoundary (h : cursor.In source) : IsBoundary source cursor.offset := by
  obtain ⟨before, hsource, hoffset⟩ := h
  exact ⟨before, cursor.rest, hsource, hoffset.symm⟩

lemma offset_add (h : cursor.In source) :
    cursor.offset + byteLength cursor.rest = source.utf8ByteSize := by
  obtain ⟨before, hsource, hoffset⟩ := h
  rw [hoffset, ← byteLength_toList, hsource, byteLength_append]

lemma offset_of_nil (h : cursor.In source) (hrest : cursor.rest = []) :
    cursor.offset = source.utf8ByteSize := by
  have hadd := h.offset_add
  rwa [hrest, byteLength_nil, Nat.add_zero] at hadd

lemma dropBytes_offset (h : cursor.In source) :
    dropBytes cursor.offset source.toList = some cursor.rest := by
  obtain ⟨before, hsource, hoffset⟩ := h
  rw [hoffset, hsource, dropBytes_byteLength]

variable (hsize : source.utf8ByteSize < UInt32.size)
include hsize

lemma toNat_span (h : cursor.In source) (n : Nat) :
    (Span.ofOffsets cursor.offset (cursor.skip n).offset).start.toNat = cursor.offset ∧
      (Span.ofOffsets cursor.offset (cursor.skip n).offset).stop.toNat = (cursor.skip n).offset := by
  have hstart := h.offset_add
  have hstop := (h.skip n).offset_add
  exact Span.toNat_ofOffsets (by omega) (by omega)

lemma within (h : cursor.In source) (n : Nat) :
    (Span.ofOffsets cursor.offset (cursor.skip n).offset).Within source := by
  obtain ⟨hstart, hstop⟩ := h.toNat_span hsize n
  have hle := (h.skip n).offset_add
  refine ⟨?_, by omega, ?_, ?_⟩
  · rw [UInt32.le_iff_toNat_le, hstart, hstop, Cursor.skip_offset]
    exact Nat.le_add_right _ _
  · rw [hstart]
    exact h.isBoundary
  · rw [hstop]
    exact (h.skip n).isBoundary

end Cursor.In

/-- A token that is the end of the source or was read in it by the lexical rules. -/
inductive Token.Stands (source : String) : Token → Prop where
  | done : Stands source (.endOfFile source.utf8ByteSize)
  | lexeme {cursor : Cursor} {kind : Kind} {n : Nat} (hin : cursor.In source)
      (hrest : cursor.rest ≠ []) (hrule : Rule.first? cursor.rest = some (some kind, n)) :
      Stands source (cursor.token kind n)

namespace Token.Stands

variable {source : String} {token : Token}

lemma done_of_nil {cursor : Cursor} (h : cursor.In source) (hrest : cursor.rest = []) :
    Stands source (.endOfFile cursor.offset) :=
  h.offset_of_nil hrest ▸ done

variable (hsize : source.utf8ByteSize < UInt32.size)
include hsize

lemma within (h : Stands source token) : token.span.Within source := by
  cases h with
  | done =>
    have hend : (UInt32.ofNat source.utf8ByteSize).toNat = source.utf8ByteSize :=
      UInt32.toNat_ofNat_of_lt' hsize
    have hboundary : IsBoundary source (UInt32.ofNat source.utf8ByteSize).toNat :=
      ⟨source.toList, [], (List.append_nil _).symm, by rw [hend, byteLength_toList]⟩
    exact ⟨UInt32.le_refl _, Nat.le_of_eq hend, hboundary, hboundary⟩
  | lexeme hin hrest hrule => exact hin.within hsize _

/-- Reading at the place of a token gives it again. -/
lemma found (h : Stands source token) : Found source token.kind token.span := by
  cases h with
  | done => exact Found.done
  | @lexeme cursor kind n hin hrest hrule =>
    obtain ⟨hstart, hstop⟩ := hin.toNat_span hsize n
    have hpos : 0 < byteLength (cursor.rest.take n) := by
      apply byteLength_pos
      rw [Ne, List.take_eq_nil_iff, not_or]
      exact ⟨Nat.ne_of_gt (Rule.pos_of_first? hrule), hrest⟩
    refine Found.token ?_ (hstart ▸ hin.dropBytes_offset) ?_
    · rw [UInt32.lt_iff_toNat_lt]
      change (Span.ofOffsets cursor.offset (cursor.skip n).offset).start.toNat <
        (Span.ofOffsets cursor.offset (cursor.skip n).offset).stop.toNat
      rw [hstart, hstop, Cursor.skip_offset]
      omega
    · change (Cursor.peek ⟨(Span.ofOffsets cursor.offset (cursor.skip n).offset).start.toNat,
        cursor.rest⟩) = _
      rw [hstart]
      exact congrArg Prod.fst (Cursor.next_of_first? hrule hrest)

end Token.Stands

/-- A reading in a source: its next token and the place behind it stand there. -/
structure Reading.In (source : String) (r : Reading) : Prop where
  token : r.lookahead.Stands source
  cursor : r.cursor.In source

/-- A reading in front of a piece of a template, which may be text instead of a token. -/
structure Reading.InTemplate (source : String) (r : Reading) : Prop where
  piece : r.lookahead.Stands source ∨ r.lookahead.kind = .templateString ∨
    r.lookahead.kind = .dollarBrace
  cursor : r.cursor.In source

section Readings

variable {source : String} {cursor after : Cursor} {token : Token}

/-- A token that is read stands in the source. -/
lemma Cursor.In.next (h : cursor.In source) (hnext : cursor.next = (.ok token, after)) :
    Reading.In source ⟨token, after⟩ := by
  obtain ⟨gap, start, hsplit, hoffset, -, hmeets⟩ := cursor.next_meets
  have hstart : start.In source := by
    have hbehind := h.behind hsplit
    rwa [← hoffset] at hbehind
  rw [hnext] at hmeets
  cases hmeets with
  | done hrest => exact ⟨.done_of_nil hstart hrest, hstart⟩
  | lexeme hrule hrest => exact ⟨.lexeme hstart hrest hrule, hstart.skip _⟩

/-- A character that is refused stands in the source. -/
lemma Cursor.In.fault (h : cursor.In source) (hsize : source.utf8ByteSize < UInt32.size)
    {e : SyntaxError} (hnext : cursor.next = (.error e, after)) : e.Placed source := by
  obtain ⟨gap, start, hsplit, hoffset, -, hmeets⟩ := cursor.next_meets
  have hstart : start.In source := by
    have hbehind := h.behind hsplit
    rwa [← hoffset] at hbehind
  rw [hnext] at hmeets
  cases hmeets with
  | @fault c cs hrest hrule =>
    refine ⟨hstart.within hsize 1, ?_⟩
    obtain ⟨before, hsource, hoffset⟩ := hstart
    rw [hrest] at hsource
    have hcut : source.toList = before ++ [c] ++ cs := by simpa using hsource
    change (Span.ofOffsets after.offset (after.skip 1).offset).text source = c.toString
    rw [Cursor.skip_offset, hrest, hoffset]
    exact Span.text_ofOffsets hcut hsize

/-- A piece of a template that is neither text nor an insertion is a token as elsewhere. -/
lemma Cursor.In.nextTemplate (h : cursor.In source) :
    Reading.InTemplate source ⟨cursor.nextTemplate.1, cursor.nextTemplate.2⟩ := by
  rcases hrest : cursor.rest with _ | ⟨c, cs⟩
  · rw [Cursor.nextTemplate_of_nil hrest]
    exact ⟨Or.inl (.done_of_nil h hrest), h⟩
  have hne : cursor.rest ≠ [] := by
    rw [hrest]
    exact List.cons_ne_nil c cs
  by_cases htick : c = '\x60'
  · subst htick
    rw [Cursor.nextTemplate_of_backtick hrest]
    exact ⟨Or.inl (.lexeme h hne (by rw [hrest]; rfl)), h.skip _⟩
  by_cases hbrace : c = '\x7d'
  · subst hbrace
    rw [Cursor.nextTemplate_of_brace hrest]
    exact ⟨Or.inl (.lexeme h hne (by rw [hrest]; rfl)), h.skip _⟩
  rcases drop_templateLength cursor.rest with hend | ⟨tail, hend⟩ | ⟨tail, hend⟩
  · rw [Cursor.nextTemplate_of_plain hrest htick hbrace (by simp [hend])]
    exact ⟨Or.inr (Or.inl rfl), h.skip _⟩
  · rw [Cursor.nextTemplate_of_plain hrest htick hbrace (by simp [hend])]
    exact ⟨Or.inr (Or.inl rfl), h.skip _⟩
  · rw [Cursor.nextTemplate_of_insertion hrest htick hbrace hend]
    exact ⟨Or.inr (Or.inr rfl), h.skip _⟩

end Readings

lemma Span.toNat_merge (a b : Span) :
    (a.merge b).start.toNat = min a.start.toNat b.start.toNat ∧
      (a.merge b).stop.toNat = max a.stop.toNat b.stop.toNat := by
  constructor
  · change (if a.start ≤ b.start then a.start else b.start).toNat = _
    simp only [UInt32.le_iff_toNat_le]
    split <;> omega
  · change (if a.stop ≤ b.stop then b.stop else a.stop).toNat = _
    simp only [UInt32.le_iff_toNat_le]
    split <;> omega

lemma IsBoundary.min_max {source : String} {m n : Nat} (hm : IsBoundary source m)
    (hn : IsBoundary source n) : IsBoundary source (min m n) ∧ IsBoundary source (max m n) := by
  rcases Nat.le_total m n with hle | hle
  · rw [Nat.min_eq_left hle, Nat.max_eq_right hle]
    exact ⟨hm, hn⟩
  · rw [Nat.min_eq_right hle, Nat.max_eq_left hle]
    exact ⟨hn, hm⟩

lemma Span.Within.merge {source : String} {a b : Span} (ha : a.Within source)
    (hb : b.Within source) : (a.merge b).Within source := by
  obtain ⟨hstart, hstop⟩ := Span.toNat_merge a b
  have hle := UInt32.le_iff_toNat_le.1 ha.start_le_stop
  have hend := ha.stop_le
  have hend' := hb.stop_le
  refine ⟨?_, by omega, ?_, ?_⟩
  · rw [UInt32.le_iff_toNat_le]
    omega
  · rw [hstart]
    exact (ha.start.min_max hb.start).1
  · rw [hstop]
    exact (ha.stop.min_max hb.stop).2

section Runs

variable {source : String} (hsize : source.utf8ByteSize < UInt32.size)
include hsize

/-- Reading on from a place in the source leads to another one, with less ahead. -/
lemma next_placed {m : Nat} {r : Reading} (hin : r.cursor.In source) (hleft : r.left ≤ m)
    (hkind : r.lookahead.kind ≠ .endOfFile) :
    NextAgrees (fun m r s => r = s ∧ r.left ≤ m ∧ r.In source)
      (fun e f => e = f ∧ e.Placed source) m r.cursor.next r.cursor.next := by
  rcases hnext : r.cursor.next with ⟨e | token, after⟩
  · exact .fault ⟨rfl, hin.fault hsize hnext⟩
  · exact .token (Nat.lt_of_lt_of_le (Reading.left_next hkind hnext) hleft)
      ⟨rfl, Nat.le_refl _, hin.next hnext⟩

/-- A run over a source and itself, in which every token stands in the source and every fault is
where it says. -/
def placing : Lockstep where
  reading m r s := r = s ∧ r.left ≤ m ∧ r.In source
  piece m r s := r = s ∧ r.left ≤ m ∧ r.InTemplate source
  context := Eq
  token t u := t = u ∧ t.Stands source
  span a b := a = b ∧ a.Within source
  fault e f := e = f ∧ e.Placed source
  excused _ := False
  templates := True
  lookahead := by
    rintro m r s ⟨rfl, -, hin⟩
    exact ⟨rfl, hin.token⟩
  kind_eq h := congrArg _ h.1
  text_eq h := congrArg _ h.1
  span_token h := ⟨congrArg _ h.1, h.2.within hsize⟩
  span_merge := by
    rintro a b a' b' ⟨rfl, ha⟩ ⟨rfl, ha'⟩
    exact ⟨rfl, ha.merge ha'⟩
  next := by
    rintro m r s ⟨rfl, hleft, hin⟩ hkind
    exact next_placed hsize hin.cursor hleft hkind
  backtick _ _ := trivial
  nextTemplate := by
    rintro m r s - ⟨rfl, hleft, hin⟩ hkind
    exact ⟨_, Nat.lt_of_lt_of_le (Reading.left_nextTemplate hkind) hleft, rfl, Nat.le_refl _,
      hin.cursor.nextTemplate⟩
  pieces := by
    rintro m r s ⟨rfl, hleft, ⟨hstands | htext | hinsertion, hcursor⟩⟩
    · exact .token ⟨rfl, hleft, hstands, hcursor⟩
    · have hlt := Reading.left_nextTemplate (r := r) (by simp [htext])
      exact .text rfl htext (Nat.lt_of_lt_of_le hlt hleft) ⟨rfl, Nat.le_refl _, hcursor.nextTemplate⟩
    · exact .insertion rfl hinsertion (next_placed hsize hcursor hleft (by simp [hinsertion]))
  mismatch := by
    rintro t u kind ⟨rfl, ht⟩ hne
    exact ⟨rfl, ht.within hsize, hne, ht.found hsize⟩
  unexpected := by
    rintro t u ⟨rfl, ht⟩
    exact ⟨rfl, ht.within hsize, ht.found hsize⟩
  located := by
    rintro make a b hmake ⟨rfl, ha⟩
    refine ⟨rfl, ?_⟩
    cases hmake <;> exact ⟨ha, trivial⟩
  inFunction h := by rw [h]
  mayReturn h := Or.inl (by rw [h])
  deeper := by
    rintro c d m r s rfl ⟨rfl, -, hin⟩
    by_cases hexceeded : c.limit ≤ c.depth
    · exact Or.inl ⟨hexceeded, hexceeded, rfl, hin.token.within hsize, trivial⟩
    · exact Or.inr (Or.inr ⟨by omega, by omega, rfl⟩)

/-- The fault of a refused source is where it says. -/
theorem placed_of_parse {limit : Nat} {e : SyntaxError} (h : parse source limit = .error e) :
    e.Placed source := by
  rcases hnext : (Cursor.ofSource source).next with ⟨e' | token, after⟩
  · rw [parse_of_fault hnext, Except.error.injEq] at h
    exact h ▸ (Cursor.In.ofSource source).fault hsize hnext
  · have hleft := left_le_length hnext
    have hrun : (placing hsize).Tries source.toList.length source.toList.length Eq _ _ :=
      Lockstep.program_tries (i := source.toList.length + 2) (j := source.toList.length + 2)
        (by omega) (by omega)
    have hout := @hrun ⟨limit, 0, false⟩ ⟨token, after⟩ ⟨limit, 0, false⟩ ⟨token, after⟩
      ⟨Nat.le_refl _, rfl, rfl, hleft, (Cursor.In.ofSource source).next hnext⟩
    change (placing hsize).Outcome _ (programOf source limit token after)
      (programOf source limit token after) at hout
    generalize hx : programOf source limit token after = x at hout
    cases hout with
    | ok hpost =>
      rw [parse_of_ok hnext hx] at h
      cases h
    | fault hfault =>
      rw [parse_of_rejected hnext hx, Except.error.injEq] at h
      exact h ▸ hfault.2
    | misspelt htoken =>
      rw [parse_of_misspelt hnext hx, Except.error.injEq] at h
      exact h ▸ ((placing hsize).unexpected htoken).2
    | excused hfalse => exact False.elim hfalse

lemma placed_of_scan {cursor : Cursor} (hin : cursor.In source) {e : SyntaxError}
    (h : cursor.scan.2 = .error e) : e.Placed source := by
  fun_induction Cursor.scan cursor with
  | case1 cursor e' after hnext =>
    cases h
    exact hin.fault hsize hnext
  | case2 => cases h
  | case3 cursor token after hnext hkind _ ih => exact ih (hin.next hnext).cursor h

theorem placed_of_tokenize {e : SyntaxError} (h : tokenize source = .error e) : e.Placed source := by
  rw [tokenize_eq_scan] at h
  rcases hstop : (scanSource source).2 with e' | last
  · rw [hstop] at h
    cases h
    exact placed_of_scan hsize (Cursor.In.ofSource source) hstop
  · rw [hstop] at h
    cases h

end Runs

lemma toNat_add_one {x : UInt32} (h : x.toNat < UInt32.size - 1) : (x + 1).toNat = x.toNat + 1 := by
  rw [UInt32.toNat_add]
  exact Nat.mod_eq_of_lt (Nat.add_lt_of_lt_sub h)

/-- The report of a fault points at its span, and names the line and the column at which that
starts. -/
lemma report_of_within {source : String} (name : String) {e : SyntaxError}
    (hsize : source.utf8ByteSize < UInt32.size - 1) (hspan : e.span.Within source) :
    ∃ before after, source.toList = before ++ after ∧ byteLength before = e.span.start.toNat ∧
      ∃ column, lineStart source.toList (before.count '\n') + column = e.span.start.toNat ∧
        e.report ⟨name, source⟩ =
          { message := e.message
            code := e.code
            help := "at " ++ name ++ ":" ++ toString (before.count '\n' + 1) ++ ":" ++
              toString (column + 1)
            labels := [⟨e.span.start.toNat, e.span.stop.toNat - e.span.start.toNat, "here"⟩] } := by
  obtain ⟨before, after, hsource, hstart⟩ := hspan.start
  have hlines : before.count '\n' ≤ byteLength before :=
    List.count_le_length.trans (length_le_byteLength before)
  have hbytes := byteLength_toList source
  rw [hsource, byteLength_append] at hbytes
  have hline : lineStart source.toList (before.count '\n') ≤ byteLength before := by
    rw [hsource]
    exact lineStart_append_le after (Nat.le_refl _)
  have hcol := LineIndex.lineCol_ofSource hsource (by omega)
  rw [hstart, UInt32.ofNat_toNat] at hcol
  refine ⟨before, after, hsource, hstart,
    e.span.start.toNat - lineStart source.toList (before.count '\n'), by omega, ?_⟩
  unfold SyntaxError.report
  dsimp only
  rw [hcol]
  have hrow : (UInt32.ofNat (before.count '\n') + 1).toNat = before.count '\n' + 1 := by
    have hnat : (UInt32.ofNat (before.count '\n')).toNat = before.count '\n' :=
      UInt32.toNat_ofNat_of_lt' (by omega)
    rw [toNat_add_one (by omega), hnat]
  have hcolumn : (e.span.start - UInt32.ofNat (lineStart source.toList (before.count '\n')) +
      1).toNat = e.span.start.toNat - lineStart source.toList (before.count '\n') + 1 := by
    have hnat : (UInt32.ofNat (lineStart source.toList (before.count '\n'))).toNat =
        lineStart source.toList (before.count '\n') := UInt32.toNat_ofNat_of_lt' (by omega)
    have hle : UInt32.ofNat (lineStart source.toList (before.count '\n')) ≤ e.span.start := by
      rw [UInt32.le_iff_toNat_le, hnat, ← hstart]
      exact hline
    have hsub := UInt32.toNat_sub_of_le _ _ hle
    rw [toNat_add_one (by omega), hsub, hnat]
  dsimp only
  rw [hrow, hcolumn]
  rfl

/-- Every fault is where it says: its span lies in the source between two characters, a refused
character is the text there, and a refused token is not what was expected and is what reading at its
place gives. Its report points at the span, and the line and the column that it names, counted from
one, lead back to where the span starts. -/
theorem faults_point_at_text (source name : String) (e : SyntaxError)
    (hsize : source.utf8ByteSize < UInt32.size - 1)
    (h : tokenize source = .error e ∨ ∃ limit, parse source limit = .error e) :
    e.span.Within source ∧ e.Fits source ∧
      ∃ before after, source.toList = before ++ after ∧ byteLength before = e.span.start.toNat ∧
        ∃ line column, line = before.count '\n' + 1 ∧ 1 ≤ column ∧
          lineStart source.toList (line - 1) + (column - 1) = e.span.start.toNat ∧
          e.report ⟨name, source⟩ =
            { message := e.message
              code := e.code
              help := "at " ++ name ++ ":" ++ toString line ++ ":" ++ toString column
              labels := [⟨e.span.start.toNat, e.span.stop.toNat - e.span.start.toNat, "here"⟩] } := by
  have hplaced : e.Placed source := by
    rcases h with htokens | ⟨limit, htree⟩
    · exact placed_of_tokenize (by omega) htokens
    · exact placed_of_parse (by omega) htree
  obtain ⟨before, after, hsource, hstart, column, hcolumn, hreport⟩ :=
    report_of_within name hsize hplaced.within
  exact ⟨hplaced.within, hplaced.fits, before, after, hsource, hstart, _, _, rfl,
    Nat.le_add_left 1 column, hcolumn, hreport⟩

lemma eq_error_of_test {x : Except SyntaxError Node} {e : SyntaxError}
    (h : (match x with
      | .error fault => decide (fault = e)
      | .ok _ => false) = true) : x = .error e := by
  cases x with
  | error fault => rw [of_decide_eq_true h]
  | ok tree => cases h

/-- An insertion that is not closed, on the second line of a template with a character of two
bytes. -/
theorem unclosed_insertion_is_found :
    parse "f(\n`é$\x7ba b\x7d`)" 9 = .error (.tokenMismatch .rBrace .identifier ⟨10, 11⟩) ∧
      Found "f(\n`é$\x7ba b\x7d`)" .identifier ⟨10, 11⟩ := by
  have hparse : parse "f(\n`é$\x7ba b\x7d`)" 9 =
      .error (.tokenMismatch .rBrace .identifier ⟨10, 11⟩) :=
    eq_error_of_test (by decide +kernel)
  exact ⟨hparse, (faults_point_at_text _ "<eval>" _ (by decide) (Or.inr ⟨9, hparse⟩)).2.1.2⟩

end ScriptTree
