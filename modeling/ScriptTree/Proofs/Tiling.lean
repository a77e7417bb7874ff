import ScriptTree.Proofs.Scan

/-!
# Tokens tile their source

A source is cut into gaps and lexemes without a remainder: each token covers its own text, tokens
follow each other in order, and all that stands between them is blanks and comments. Where reading
stops at a fault, the text in front of the refused character is cut in the same way.
-/

namespace ScriptTree

/-- The text from an offset on is made of gaps and of the texts of these tokens in turn, in front of
a rest. Each token has the span of its text. -/
inductive Tiled : Nat → List Char → List Token → List Char → Prop where
  | gap {offset : Nat} {gap rest : List Char} (h : Gap gap rest) : Tiled offset gap [] rest
  | token {offset : Nat} {gap text chars rest : List Char} {kind : Kind} {tokens : List Token}
      (hgap : Gap gap (text ++ chars ++ rest)) (htext : text ≠ []) (hkind : kind ≠ .endOfFile)
      (h : Tiled (offset + byteLength gap + byteLength text) chars tokens rest) :
      Tiled offset (gap ++ text ++ chars)
        (⟨kind, String.ofList text, .ofOffsets (offset + byteLength gap)
          (offset + byteLength gap + byteLength text)⟩ :: tokens) rest

/-- What a scan stops at: the end of the source, or a character that no rule reads. -/
inductive StopsAt (offset : Nat) : List Char → Except SyntaxError Token → Prop where
  | done : StopsAt offset [] (.ok (.endOfFile offset))
  | fault {c : Char} {cs : List Char} (hrule : Rule.first? (c :: cs) = none) :
      StopsAt offset (c :: cs)
        (.error (.unsupportedCharacter c (.ofOffsets offset (offset + c.utf8Size))))

/-- A scan cuts the text in front of the place where it stops into tiles. -/
theorem Cursor.scan_tiled (cursor : Cursor) :
    ∃ before rest, cursor.rest = before ++ rest ∧
      Tiled cursor.offset before cursor.scan.1 rest ∧
      StopsAt (cursor.offset + byteLength before) rest cursor.scan.2 := by
  obtain ⟨gap, start, hsplit, hoffset, hgap, hmeets⟩ := cursor.next_meets
  generalize hnext : cursor.next = outcome at hmeets
  cases hmeets with
  | done hrest =>
    rw [scan_of_end hnext rfl, hoffset]
    rw [hrest] at hsplit hgap
    exact ⟨gap, [], hsplit, Tiled.gap hgap, StopsAt.done⟩
  | @lexeme kind n hrule hrest =>
    have hkind := Rule.kind_ne_endOfFile_of_first? hrule
    rw [scan_of_token hnext hkind]
    have hlength : (start.skip n).rest.length < cursor.rest.length :=
      next_length_lt hnext hkind
    -- the rest of the scan begins behind the lexeme, where less text is left
    obtain ⟨before, rest, hcut, htiled, hstops⟩ := scan_tiled (start.skip n)
    rw [skip_rest] at hcut
    have htext : start.rest = start.rest.take n ++ before ++ rest := by
      rw [List.append_assoc, ← hcut, List.take_append_drop]
    rw [skip_offset, hoffset] at htiled hstops
    refine ⟨gap ++ start.rest.take n ++ before, rest, ?_, ?_, ?_⟩
    · rw [hsplit, List.append_assoc, List.append_assoc,
        ← List.append_assoc (start.rest.take n), ← htext]
    · have htoken := Tiled.token (htext ▸ hgap) ?_ hkind htiled
      · simpa only [Cursor.token, skip_offset, hoffset] using htoken
      · have hpos := Rule.pos_of_first? hrule
        intro hnil
        rcases List.take_eq_nil_iff.1 hnil with hzero | hempty
        · omega
        · exact hrest hempty
    · simpa only [byteLength_append, Nat.add_assoc] using hstops
  | @fault c cs hrest hrule =>
    rw [scan_of_error hnext, hoffset]
    rw [hrest] at hsplit hgap hrule
    refine ⟨gap, c :: cs, hsplit, Tiled.gap hgap, ?_⟩
    have hstop : (start.skip 1).offset = start.offset + c.utf8Size := by
      rw [skip_offset, hrest]
      simp
    rw [hstop, hoffset]
    exact StopsAt.fault hrule
termination_by cursor.rest.length

/-- A token of a tiling stands for a part of the text that is not empty. -/
lemma Tiled.exists_part {offset : Nat} {chars rest : List Char} {tokens : List Token}
    (h : Tiled offset chars tokens rest) {token : Token} (hmem : token ∈ tokens) :
    ∃ before text after, chars = before ++ text ++ after ∧ text ≠ [] ∧ token.kind ≠ .endOfFile ∧
      token.text = String.ofList text ∧
      token.span = .ofOffsets (offset + byteLength before)
        (offset + byteLength before + byteLength text) := by
  induction h with
  | gap => cases hmem
  | @token offset gap text chars rest kind tokens hgap htext hkind _ ih =>
    rcases List.mem_cons.1 hmem with rfl | hmem
    · exact ⟨gap, text, chars, rfl, htext, hkind, rfl, rfl⟩
    · obtain ⟨before, part, after, hchars, hpart, hk, ht, hspan⟩ := ih hmem
      refine ⟨gap ++ text ++ before, part, after, ?_, hpart, hk, ht, ?_⟩
      · rw [hchars]
        simp
      · rw [hspan]
        simp [Nat.add_assoc]

lemma dropBytes_byteLength (a b : List Char) : dropBytes (byteLength a) (a ++ b) = some b := by
  induction a with
  | nil =>
    rw [byteLength_nil]
    cases b <;> rfl
  | cons c a ih =>
    obtain ⟨n, hn⟩ := Nat.exists_eq_add_of_lt c.utf8Size_pos
    have hlen : byteLength (c :: a) = n + byteLength a + 1 := by
      rw [byteLength_cons]
      omega
    rw [hlen, List.cons_append, dropBytes, if_pos (by omega)]
    have hleft : n + byteLength a + 1 - c.utf8Size = byteLength a := by omega
    rw [hleft, ih]

lemma takeBytes_byteLength (a b : List Char) : takeBytes (byteLength a) (a ++ b) = some a := by
  induction a with
  | nil =>
    rw [byteLength_nil]
    cases b <;> rfl
  | cons c a ih =>
    obtain ⟨n, hn⟩ := Nat.exists_eq_add_of_lt c.utf8Size_pos
    have hlen : byteLength (c :: a) = n + byteLength a + 1 := by
      rw [byteLength_cons]
      omega
    rw [hlen, List.cons_append, takeBytes, if_pos (by omega)]
    have hleft : n + byteLength a + 1 - c.utf8Size = byteLength a := by omega
    rw [hleft, ih, Option.map_some]

lemma Span.toNat_ofOffsets {a b : Nat} (ha : a < UInt32.size) (hb : b < UInt32.size) :
    (Span.ofOffsets a b).start.toNat = a ∧ (Span.ofOffsets a b).stop.toNat = b :=
  ⟨UInt32.toNat_ofNat_of_lt' ha, UInt32.toNat_ofNat_of_lt' hb⟩

/-- The span between two places of a source covers the text between them. -/
theorem Span.text_ofOffsets {source : String} {before text after : List Char}
    (hsource : source.toList = before ++ text ++ after) (hsize : source.utf8ByteSize < UInt32.size) :
    (Span.ofOffsets (byteLength before) (byteLength before + byteLength text)).text source =
      String.ofList text := by
  rw [← byteLength_toList, hsource, byteLength_append, byteLength_append] at hsize
  obtain ⟨hstart, hstop⟩ := Span.toNat_ofOffsets
    (a := byteLength before) (b := byteLength before + byteLength text) (by omega) (by omega)
  have hle : (Span.ofOffsets (byteLength before) (byteLength before + byteLength text)).start ≤
      (Span.ofOffsets (byteLength before) (byteLength before + byteLength text)).stop := by
    rw [UInt32.le_iff_toNat_le, hstart, hstop]
    omega
  unfold Span.text Span.size
  rw [if_pos hle, hstart, hstop, hsource, List.append_assoc, dropBytes_byteLength,
    Nat.add_sub_cancel_left, Option.bind_some, takeBytes_byteLength]

/-- Offsets of a tiling grow from token to token. -/
lemma Tiled.pairwise {offset : Nat} {chars rest : List Char} {tokens : List Token}
    (h : Tiled offset chars tokens rest) (hsize : offset + byteLength chars < UInt32.size) :
    tokens.Pairwise fun s t => s.span.stop ≤ t.span.start := by
  induction h with
  | gap => exact List.Pairwise.nil
  | @token offset gap text chars rest kind tokens hgap htext hkind htiled ih =>
    rw [byteLength_append, byteLength_append] at hsize
    refine List.Pairwise.cons ?_ (ih (by omega))
    intro t ht
    obtain ⟨before, part, after, hchars, -, -, -, hspan⟩ := htiled.exists_part ht
    rw [hchars, byteLength_append, byteLength_append] at hsize
    rw [hspan, UInt32.le_iff_toNat_le, (Span.toNat_ofOffsets (by omega) (by omega)).2,
      (Span.toNat_ofOffsets (by omega) (by omega)).1]
    omega

/-- A token that is no end token, with the text that the source has at its span. -/
structure Token.Covers (token : Token) (source : String) : Prop where
  kind_ne : token.kind ≠ .endOfFile
  text_ne : token.text ≠ ""
  start_lt : token.span.start < token.span.stop
  text_eq : token.span.text source = token.text

/-- The tokens of a tiling of the front of a source cover their texts. -/
lemma Tiled.covers {source : String} {chars rest : List Char} {tokens : List Token}
    (h : Tiled 0 chars tokens rest) (hsource : source.toList = chars ++ rest)
    (hsize : source.utf8ByteSize < UInt32.size) : ∀ token ∈ tokens, token.Covers source := by
  intro token hmem
  obtain ⟨before, text, after, hchars, htext, hkind, htoken, hspan⟩ := h.exists_part hmem
  have hcut : source.toList = before ++ text ++ (after ++ rest) := by
    rw [hsource, hchars]
    simp
  rw [Nat.zero_add] at hspan
  refine ⟨hkind, ?_, ?_, ?_⟩
  · rw [htoken]
    simpa using htext
  · have hpos := byteLength_pos htext
    have hsum := byteLength_toList source
    rw [hcut, byteLength_append, byteLength_append] at hsum
    obtain ⟨hstart, hstop⟩ := Span.toNat_ofOffsets
      (a := byteLength before) (b := byteLength before + byteLength text) (by omega) (by omega)
    rw [hspan, UInt32.lt_iff_toNat_lt, hstart, hstop]
    omega
  · rw [hspan, htoken]
    exact Span.text_ofOffsets hcut hsize

/-- A token of a tiling ends within the tiled text. -/
lemma Tiled.stop_le {offset : Nat} {chars rest : List Char} {tokens : List Token}
    (h : Tiled offset chars tokens rest) (hsize : offset + byteLength chars < UInt32.size)
    {token : Token} (hmem : token ∈ tokens) :
    token.span.start ≤ token.span.stop ∧
      token.span.stop ≤ UInt32.ofNat (offset + byteLength chars) := by
  obtain ⟨before, text, after, hchars, -, -, -, hspan⟩ := h.exists_part hmem
  have hsum : byteLength chars = byteLength before + byteLength text + byteLength after := by
    rw [hchars, byteLength_append, byteLength_append]
  obtain ⟨hstart, hstop⟩ := Span.toNat_ofOffsets (a := offset + byteLength before)
    (b := offset + byteLength before + byteLength text) (by omega) (by omega)
  rw [hspan, UInt32.le_iff_toNat_le, UInt32.le_iff_toNat_le, hstart, hstop,
    UInt32.toNat_ofNat_of_lt' hsize]
  omega

/-- A span behind the tiled text follows all tokens. -/
lemma Tiled.pairwise_append {offset : Nat} {chars rest : List Char} {tokens : List Token}
    (h : Tiled offset chars tokens rest) (hsize : offset + byteLength chars < UInt32.size)
    {last : Span} (hlast : last.start = UInt32.ofNat (offset + byteLength chars)) :
    (tokens.map Token.span ++ [last]).Pairwise fun a b => a.stop ≤ b.start := by
  refine List.pairwise_append.2 ⟨List.pairwise_map.2 (h.pairwise hsize),
    List.pairwise_singleton _ _, ?_⟩
  intro a ha b hb
  obtain ⟨token, hmem, rfl⟩ := List.mem_map.1 ha
  rw [List.mem_singleton.1 hb, hlast]
  exact (h.stop_le hsize hmem).2

/-- The tokens of a source tile it, with an end token behind all of it; where a fault is found
instead, its span is the refused character and the text in front of it is tiled. The size keeps
offsets within the 32 bits of a span. -/
theorem tokenize_tiles (source : String) (hsize : source.utf8ByteSize < UInt32.size) :
    (∀ tokens, tokenize source = .ok tokens → ∃ read,
      tokens = read ++ [.endOfFile source.utf8ByteSize] ∧
      Tiled 0 source.toList read [] ∧
      (tokens.Pairwise fun s t => s.span.stop ≤ t.span.start) ∧
      ∀ token ∈ read, token.Covers source) ∧
    (∀ e, tokenize source = .error e → ∃ before c after read,
      source.toList = before ++ c :: after ∧
      e = .unsupportedCharacter c
        (.ofOffsets (byteLength before) (byteLength before + c.utf8Size)) ∧
      e.span.text source = c.toString ∧
      Rule.first? (c :: after) = none ∧
      Tiled 0 before read (c :: after) ∧
      (read.Pairwise fun s t => s.span.stop ≤ t.span.start) ∧
      ∀ token ∈ read, token.Covers source) := by
  obtain ⟨before, rest, hsource, htiled, hstops⟩ := (Cursor.ofSource source).scan_tiled
  have hcut : source.toList = before ++ rest := hsource
  have hlength : byteLength before + byteLength rest = source.utf8ByteSize := by
    rw [← byteLength_toList, hcut, byteLength_append]
  have hoffset : (Cursor.ofSource source).offset = 0 := rfl
  have hcovers := htiled.covers hcut hsize
  have hpairwise := htiled.pairwise (by rw [hoffset]; omega)
  rw [tokenize_eq_scan, scanSource]
  rw [hoffset, Nat.zero_add] at hstops
  generalize (Cursor.ofSource source).scan.2 = last at hstops
  constructor
  · intro tokens h
    cases hstops with
    | done =>
      rw [List.append_nil] at hcut
      cases h
      rw [byteLength_nil, Nat.add_zero] at hlength
      rw [← hlength, hcut]
      have hlast : (Token.endOfFile (byteLength before)).span.start =
          UInt32.ofNat ((Cursor.ofSource source).offset + byteLength before) := by
        rw [hoffset, Nat.zero_add]
        rfl
      have hspans := htiled.pairwise_append (by omega) hlast
      rw [← List.map_singleton, ← List.map_append, List.pairwise_map] at hspans
      exact ⟨_, rfl, htiled, hspans, hcovers⟩
    | fault => cases h
  · intro e h
    cases hstops with
    | done => cases h
    | @fault c cs hrule =>
      cases h
      refine ⟨before, c, cs, _, hcut, rfl, ?_, hrule, htiled, hpairwise, hcovers⟩
      have hchar : source.toList = before ++ [c] ++ cs := by
        rw [hcut, List.append_assoc, List.singleton_append]
      have htext := Span.text_ofOffsets hchar hsize
      rw [byteLength_cons, byteLength_nil, Nat.add_zero] at htext
      exact htext.trans (String.singleton_eq_ofList).symm

theorem tiles_in_front_of_fault :
    "a/*é*/ // b\n@".utf8ByteSize < UInt32.size ∧
      ∃ before c after read, "a/*é*/ // b\n@".toList = before ++ c :: after ∧
        tokenize "a/*é*/ // b\n@" = .error (.unsupportedCharacter c
          (.ofOffsets (byteLength before) (byteLength before + c.utf8Size))) ∧
        Tiled 0 before read (c :: after) := by
  have hsize : "a/*é*/ // b\n@".utf8ByteSize < UInt32.size := by decide
  have hfault : tokenize "a/*é*/ // b\n@" = .error (.unsupportedCharacter '@' ⟨13, 14⟩) := by
    decide +kernel
  obtain ⟨before, c, after, read, hsource, he, -, -, htiled, -, -⟩ :=
    (tokenize_tiles _ hsize).2 _ hfault
  rw [he] at hfault
  exact ⟨hsize, before, c, after, read, hsource, hfault, htiled⟩

end ScriptTree
