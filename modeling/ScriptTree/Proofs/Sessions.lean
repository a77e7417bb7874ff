import ScriptTree.Token.Session
import ScriptTree.Proofs.Faults

/-!
# Sessions in any order

The two modes of reading may follow each other at any place of a source, also at places that the
grammar never reaches. Every step leaves the cursor and the remembered place at the boundary of a
character, and from that alone follows what the next step does. Template text is found here a second
time, by a walk along single bytes that takes two at a backslash: it ends where the characters do.

Main statement: `contract_after`.
-/

namespace ScriptTree

/-- The number of bytes that a walk passes in front of a backtick, of `${` or of the end. At a
backslash it takes the next byte too, whichever character that belongs to. -/
def walkBytes : List UInt8 → Nat
  | [] => 0
  | [byte] => if byte = 0x60 then 0 else 1
  | byte :: second :: bytes =>
    if byte = 0x60 ∨ byte = 0x24 ∧ second = 0x7b then 0
    else if byte = 0x5c then walkBytes bytes + 2
    else walkBytes (second :: bytes) + 1

/-- The bytes of characters. -/
def bytesOf (cs : List Char) : List UInt8 :=
  cs.flatMap String.utf8EncodeChar

lemma bytesOf_cons (c : Char) (cs : List Char) :
    bytesOf (c :: cs) = String.utf8EncodeChar c ++ bytesOf cs :=
  List.flatMap_cons

lemma length_bytesOf (cs : List Char) : (bytesOf cs).length = byteLength cs := by
  induction cs with
  | nil => rfl
  | cons c cs ih =>
    rw [bytesOf_cons, List.length_append, String.length_utf8EncodeChar, byteLength_cons, ih]

lemma bytesOf_toList (source : String) : bytesOf source.toList = source.toByteArray.data.toList := by
  conv_rhs => rw [← @String.ofList_toList source, String.toByteArray_ofList]
  exact List.toList_data_toByteArray.symm

/-- No byte of a character that takes more than one is below 128. -/
lemma le_of_mem_utf8EncodeChar {c : Char} (hc : 127 < c.toNat) :
    ∀ byte ∈ String.utf8EncodeChar c, 128 ≤ byte.toNat := by
  have hhigh : ∀ n, n < 128 → 128 ≤ (UInt8.ofNat (n + 128)).toNat := by
    intro n hn
    rw [UInt8.toNat_ofNat_of_lt' (show n + 128 < 256 by omega)]
    omega
  have hval : ¬ c.val.toNat ≤ 127 := Nat.not_le_of_lt hc
  unfold String.utf8EncodeChar
  dsimp only
  rw [if_neg hval]
  split
  · simpa using ⟨hhigh (_ + 64) (by omega), hhigh _ (by omega)⟩
  · split
    · simpa using ⟨hhigh (_ + 96) (by omega), hhigh _ (by omega), hhigh _ (by omega)⟩
    · simpa using ⟨hhigh (_ + 112) (by omega), hhigh _ (by omega), hhigh _ (by omega),
        hhigh _ (by omega)⟩

/-- A byte below 128 is a character of its own. -/
lemma eq_of_utf8EncodeChar {c d : Char} (hd : d.toNat < 128) {tail : List UInt8}
    (h : String.utf8EncodeChar c = UInt8.ofNat d.toNat :: tail) : c = d ∧ tail = [] := by
  have hnat : (UInt8.ofNat d.toNat).toNat = d.toNat :=
    UInt8.toNat_ofNat_of_lt' (show d.toNat < 256 by omega)
  by_cases hc : c.toNat ≤ 127
  · have hone : String.utf8EncodeChar c = [UInt8.ofNat c.toNat] := if_pos hc
    rw [hone, List.cons.injEq] at h
    have hcnat : (UInt8.ofNat c.toNat).toNat = c.toNat :=
      UInt8.toNat_ofNat_of_lt' (show c.toNat < 256 by omega)
    rw [h.1, hnat] at hcnat
    exact ⟨Char.toNat_inj.1 hcnat.symm, h.2.symm⟩
  · have hhigh := le_of_mem_utf8EncodeChar (Nat.lt_of_not_le hc) _ (h ▸ List.mem_cons_self)
    omega

lemma exists_utf8EncodeChar (c : Char) :
    ∃ byte tail, String.utf8EncodeChar c = byte :: tail ∧ c.utf8Size = tail.length + 1 ∧
      ∀ b ∈ tail, 128 ≤ b.toNat := by
  obtain ⟨byte, tail, hbytes⟩ := List.exists_cons_of_length_pos
    (String.length_utf8EncodeChar c ▸ c.utf8Size_pos)
  have hsize : c.utf8Size = tail.length + 1 := by
    rw [← String.length_utf8EncodeChar, hbytes, List.length_cons]
  refine ⟨byte, tail, hbytes, hsize, ?_⟩
  by_cases hc : c.toNat ≤ 127
  · have hone : c.utf8Size = 1 := by
      rw [Char.utf8Size_eq_one_iff]
      exact hc
    rw [List.eq_nil_of_length_eq_zero (show tail.length = 0 by omega)]
    simp
  · have hhigh := le_of_mem_utf8EncodeChar (Nat.lt_of_not_le hc)
    rw [hbytes, List.forall_mem_cons] at hhigh
    exact hhigh.2

/-- Nor does a text begin with such a byte unless with its character. -/
lemma head_of_bytesOf {cs : List Char} {d : Char} (hd : d.toNat < 128)
    (h : (bytesOf cs).head? = some (UInt8.ofNat d.toNat)) : ∃ rest, cs = d :: rest := by
  cases cs with
  | nil => cases h
  | cons c cs =>
    obtain ⟨byte, tail, hbytes, -⟩ := exists_utf8EncodeChar c
    rw [bytesOf_cons, hbytes, List.cons_append, List.head?_cons] at h
    rw [Option.some.inj h] at hbytes
    exact ⟨cs, by rw [(eq_of_utf8EncodeChar hd hbytes).1]⟩

/-- Bytes of longer characters are passed one by one. -/
lemma walkBytes_cons {byte : UInt8} {bytes : List UInt8} (htick : byte ≠ 0x60) (hback : byte ≠ 0x5c)
    (hdollar : byte = 0x24 → bytes.head? ≠ some 0x7b) :
    walkBytes (byte :: bytes) = walkBytes bytes + 1 := by
  cases bytes with
  | nil => simp only [walkBytes, if_neg htick]
  | cons second bytes =>
    rw [walkBytes, if_neg, if_neg hback]
    rintro (h | ⟨h, rfl⟩)
    · exact htick h
    · exact hdollar h rfl

lemma walkBytes_append {high bytes : List UInt8} (h : ∀ b ∈ high, 128 ≤ b.toNat) :
    walkBytes (high ++ bytes) = walkBytes bytes + high.length := by
  induction high with
  | nil => rfl
  | cons byte high ih =>
    obtain ⟨hbyte, hhigh⟩ := List.forall_mem_cons.1 h
    have hne : ∀ low : UInt8, low.toNat < 128 → byte ≠ low := by
      rintro _ hlow rfl
      omega
    rw [List.cons_append, walkBytes_cons (hne _ (by decide)) (hne _ (by decide))
      (fun hdollar => absurd hdollar (hne _ (by decide))), ih hhigh, List.length_cons, Nat.add_assoc]

/-- The walk along bytes ends where the template text does. -/
theorem walkBytes_bytesOf (cs : List Char) :
    walkBytes (bytesOf cs) = byteLength (cs.take (templateLength cs)) := by
  fun_induction templateLength cs with
  | case1 => rfl
  | case2 cs =>
    have hbytes : bytesOf ('\x60' :: cs) = 0x60 :: bytesOf cs := bytesOf_cons _ _
    rw [hbytes]
    cases bytesOf cs <;> simp [walkBytes]
  | case3 cs =>
    have hbytes : bytesOf ('$' :: '\x7b' :: cs) = 0x24 :: 0x7b :: bytesOf cs := bytesOf_cons _ _
    rw [hbytes]
    simp [walkBytes]
  | case4 c cs ih =>
    -- the walk may stop inside the character behind the backslash, and then goes on to its end
    obtain ⟨byte, tail, hbyte, hsize, htail⟩ := exists_utf8EncodeChar c
    have hbytes : bytesOf ('\\' :: c :: cs) = 0x5c :: byte :: (tail ++ bytesOf cs) := by
      rw [bytesOf_cons, bytesOf_cons, hbyte]
      rfl
    have hback : '\\'.utf8Size = 1 := rfl
    rw [hbytes, walkBytes, if_neg (by simp), if_pos rfl, walkBytes_append htail, ih,
      List.take_succ_cons, List.take_succ_cons, byteLength_cons, byteLength_cons, hsize, hback]
    omega
  | case5 c cs htick hinsertion hescape ih =>
    obtain ⟨byte, tail, hbyte, hsize, htail⟩ := exists_utf8EncodeChar c
    have hbytes : bytesOf (c :: cs) = byte :: (tail ++ bytesOf cs) := by
      rw [bytesOf_cons, hbyte]
      rfl
    have hchar : ∀ d : Char, d.toNat < 128 → byte = UInt8.ofNat d.toNat → c = d ∧ tail = [] :=
      fun d hd h => eq_of_utf8EncodeChar hd (h ▸ hbyte)
    rw [List.take_succ_cons, byteLength_cons, ← ih, hsize, hbytes]
    by_cases hback : byte = 0x5c
    · obtain ⟨rfl, rfl⟩ := hchar '\\' (by decide) hback
      cases cs with
      | nil => simp [hback, bytesOf, walkBytes]
      | cons d cs => exact absurd rfl (hescape d cs rfl)
    · rw [walkBytes_cons, walkBytes_append htail]
      · omega
      · intro h
        exact htick (hchar '\x60' (by decide) h).1
      · exact hback
      · intro h hbrace
        obtain ⟨rfl, rfl⟩ := hchar '$' (by decide) h
        obtain ⟨rest, rfl⟩ := @head_of_bytesOf cs '\x7b' (by decide) hbrace
        exact hinsertion rest rfl rfl

namespace Cursor

variable {source : String} {cursor after : Cursor} {token : Token}

lemma offset_lt_skip {n : Nat} (hrest : cursor.rest ≠ []) (hn : 0 < n) :
    cursor.offset < (cursor.skip n).offset := by
  have htake : cursor.rest.take n ≠ [] := by
    rw [Ne, List.take_eq_nil_iff, not_or]
    exact ⟨Nat.ne_of_gt hn, hrest⟩
  have hpos := byteLength_pos htake
  rw [skip_offset]
  omega

namespace In

/-- The bytes behind a place are those of its text. -/
lemma drop_bytes (h : cursor.In source) :
    source.toByteArray.data.toList.drop cursor.offset = bytesOf cursor.rest := by
  obtain ⟨before, hsource, hoffset⟩ := h
  have happend : bytesOf (before ++ cursor.rest) = bytesOf before ++ bytesOf cursor.rest :=
    List.flatMap_append
  rw [← bytesOf_toList, hsource, hoffset, ← length_bytesOf, happend, List.drop_left]

/-- The walk along the bytes of a source stops at a boundary, behind the template text. -/
lemma takeBytes_walkBytes (h : cursor.In source) :
    takeBytes (walkBytes (source.toByteArray.data.toList.drop cursor.offset)) cursor.rest =
      some (cursor.rest.take (templateLength cursor.rest)) := by
  rw [h.drop_bytes, walkBytes_bytesOf]
  have htake := takeBytes_byteLength (cursor.rest.take (templateLength cursor.rest))
    (cursor.rest.drop (templateLength cursor.rest))
  rwa [List.take_append_drop] at htake

/-- A token has the text that the source has at its span. -/
lemma text_token (h : cursor.In source) (hsize : source.utf8ByteSize < UInt32.size) (kind : Kind)
    (n : Nat) : (cursor.token kind n).span.text source = (cursor.token kind n).text := by
  obtain ⟨before, hsource, hoffset⟩ := h
  have hcut : source.toList = before ++ cursor.rest.take n ++ cursor.rest.drop n := by
    rw [hsource, List.append_assoc, List.take_append_drop]
  change (Span.ofOffsets cursor.offset (cursor.skip n).offset).text source = _
  rw [skip_offset, hoffset]
  exact Span.text_ofOffsets hcut hsize

end In

/-- Where a reading by the lexical rules meets something, a gap behind its start. -/
lemma In.next_meets (h : cursor.In source) :
    ∃ start : Cursor, start.In source ∧ cursor.offset ≤ start.offset ∧ start.Meets cursor.next := by
  obtain ⟨gap, start, hsplit, hoffset, -, hmeets⟩ := cursor.next_meets
  have hbehind := h.behind hsplit
  rw [← hoffset] at hbehind
  exact ⟨start, hbehind, by omega, hmeets⟩

/-- What one reading in a template does at a place. -/
inductive Cuts (cursor : Cursor) : Token × Cursor → Prop where
  | done (hrest : cursor.rest = []) : Cuts cursor (.endOfFile cursor.offset, cursor)
  | piece {kind : Kind} {n : Nat} (hrest : cursor.rest ≠ []) (hn : 0 < n)
      (hkind : kind ≠ .dollarBrace) : Cuts cursor (cursor.token kind n, cursor.skip n)
  | insertion {n : Nat} {tail : List Char} (hrest : cursor.rest.drop n = '$' :: '\x7b' :: tail) :
      Cuts cursor (cursor.token .dollarBrace n, cursor.skip (n + 1))

lemma nextTemplate_cuts (cursor : Cursor) : cursor.Cuts cursor.nextTemplate := by
  rcases hrest : cursor.rest with _ | ⟨c, cs⟩
  · rw [nextTemplate_of_nil hrest]
    exact .done hrest
  have hne : cursor.rest ≠ [] := hrest ▸ List.cons_ne_nil c cs
  by_cases htick : c = '\x60'
  · subst htick
    rw [nextTemplate_of_backtick hrest]
    exact .piece hne Nat.one_pos (by decide)
  by_cases hbrace : c = '\x7d'
  · subst hbrace
    rw [nextTemplate_of_brace hrest]
    exact .piece hne Nat.one_pos (by decide)
  by_cases hinsertion : ∃ tail, cursor.rest.drop (templateLength cursor.rest) = '$' :: '\x7b' :: tail
  · obtain ⟨tail, htail⟩ := hinsertion
    rw [nextTemplate_of_insertion hrest htick hbrace htail]
    exact .insertion htail
  · have hplain := nextTemplate_of_plain hrest htick hbrace fun tail h => hinsertion ⟨tail, h⟩
    have hless := nextTemplate_length_lt hne
    rw [hplain] at hless ⊢
    refine .piece hne (Nat.pos_of_ne_zero fun hzero => ?_) (by decide)
    rw [hzero] at hless
    exact Nat.lt_irrefl _ hless

lemma In.le_next (h : cursor.In source) : cursor.offset ≤ cursor.next.2.offset := by
  obtain ⟨start, -, hle, hmeets⟩ := h.next_meets
  generalize cursor.next = outcome at hmeets
  cases hmeets with
  | done => exact hle
  | lexeme => exact Nat.le_trans hle (Nat.le_add_right _ _)
  | fault => exact hle

lemma le_nextTemplate (cursor : Cursor) : cursor.offset ≤ cursor.nextTemplate.2.offset := by
  have hcuts := cursor.nextTemplate_cuts
  generalize cursor.nextTemplate = outcome at hcuts
  cases hcuts with
  | done => exact Nat.le_refl _
  | piece => exact Nat.le_add_right _ _
  | insertion => exact Nat.le_add_right _ _

lemma In.next_token (h : cursor.In source) (hsize : source.utf8ByteSize < UInt32.size)
    (hnext : cursor.next = (.ok token, after)) (hkind : token.kind ≠ .endOfFile) :
    token.span.text source = token.text ∧ cursor.offset < after.offset ∧
      after.offset = token.span.stop.toNat := by
  obtain ⟨start, hstart, hle, hmeets⟩ := h.next_meets
  rw [hnext] at hmeets
  cases hmeets with
  | done => exact absurd rfl hkind
  | @lexeme kind n hrule hrest =>
    have hlt := offset_lt_skip hrest (Rule.pos_of_first? hrule)
    exact ⟨hstart.text_token hsize kind n, by omega, (hstart.toNat_span hsize n).2.symm⟩

lemma In.template_token (h : cursor.In source) (hsize : source.utf8ByteSize < UInt32.size)
    (hnext : cursor.nextTemplate = (token, after)) (hkind : token.kind ≠ .endOfFile) :
    token.span.text source = token.text ∧ cursor.offset < after.offset ∧
      (token.kind ≠ .dollarBrace → after.offset = token.span.stop.toNat) ∧
      (token.kind = .dollarBrace →
        after.offset = token.span.stop.toNat + 1 ∧ after.rest.head? = some '\x7b') := by
  have hcuts := cursor.nextTemplate_cuts
  rw [hnext] at hcuts
  cases hcuts with
  | done => exact absurd rfl hkind
  | @piece kind n hrest hn hdollar =>
    exact ⟨h.text_token hsize kind n, offset_lt_skip hrest hn,
      fun _ => (h.toNat_span hsize n).2.symm, fun hkind => absurd hkind hdollar⟩
  | @insertion n tail hrest =>
    have hne : cursor.rest ≠ [] := by
      intro hnil
      rw [hnil, List.drop_nil] at hrest
      cases hrest
    have hskip : (cursor.skip (n + 1)).offset = (cursor.skip n).offset + 1 := by
      have htake : cursor.rest.take (n + 1) = cursor.rest.take n ++ ['$'] := by
        rw [List.take_add, hrest]
        rfl
      rw [skip_offset, skip_offset, htake, byteLength_append, Nat.add_assoc]
      rfl
    refine ⟨h.text_token hsize _ n, offset_lt_skip hne n.succ_pos, fun hkind => absurd rfl hkind,
      fun _ => ⟨?_, ?_⟩⟩
    · rw [hskip]
      exact congrArg (· + 1) (h.toNat_span hsize n).2.symm
    · rw [skip_rest, ← List.drop_drop, hrest]
      rfl

lemma In.rest_of_offset (h : cursor.In source) (hoffset : cursor.offset = source.utf8ByteSize) :
    cursor.rest = [] := by
  have hadd := h.offset_add
  by_contra hrest
  have hpos := byteLength_pos hrest
  omega

/-- A fault is found again at the place where it leaves the cursor. -/
lemma next_of_error {e : SyntaxError} (h : cursor.next = (.error e, after)) :
    after.next = (.error e, after) ∧ ∃ c cs, after.rest = c :: cs ∧
      e = .unsupportedCharacter c (.ofOffsets after.offset (after.offset + c.utf8Size)) := by
  obtain ⟨gap, start, -, -, -, hmeets⟩ := cursor.next_meets
  rw [h] at hmeets
  cases hmeets with
  | @fault c cs hrest hrule =>
    obtain ⟨offset, rest⟩ := after
    obtain rfl : rest = c :: cs := hrest
    refine ⟨next_of_fault hrule, c, cs, rfl, ?_⟩
    rw [skip_offset]
    simp

end Cursor

namespace Session

/-- The session after some steps. -/
def after (session : Session) (steps : List ScanStep) : Session :=
  steps.foldl (fun session step => (session.step step).2) session

/-- Both places of a session are places of a source. -/
structure In (source : String) (session : Session) : Prop where
  cursor : session.cursor.In source
  saved : session.saved.In source

variable {source : String} {session : Session}

lemma In.step (h : session.In source) (step : ScanStep) : (session.step step).2.In source := by
  cases step with
  | next =>
    refine ⟨?_, h.saved⟩
    obtain ⟨start, hstart, -, hmeets⟩ := h.cursor.next_meets
    change session.cursor.next.2.In source
    generalize session.cursor.next = outcome at hmeets
    cases hmeets with
    | done => exact hstart
    | lexeme => exact hstart.skip _
    | fault => exact hstart
  | peek => exact h
  | template => exact ⟨h.cursor.nextTemplate.cursor, h.saved⟩
  | save => exact ⟨h.cursor, h.cursor⟩
  | restore => exact ⟨h.saved, h.saved⟩

theorem In.after (h : session.In source) (steps : List ScanStep) :
    (session.after steps).In source := by
  induction steps generalizing session with
  | nil => exact h
  | cons step steps ih => exact ih (h.step step)

/-- What may be relied on in a session, whichever steps led to it. -/
structure Contract (source : String) (session : Session) : Prop where
  /-- The cursor is at the boundary of a character. -/
  boundary : IsBoundary source session.cursor.offset
  offset_le : session.cursor.offset ≤ source.utf8ByteSize
  /-- What is left to read is the source from that boundary on. -/
  rest : dropBytes session.cursor.offset source.toList = some session.cursor.rest
  /-- A walk along its bytes cuts template text off at a boundary. -/
  walk : takeBytes (walkBytes (source.toByteArray.data.toList.drop session.cursor.offset))
    session.cursor.rest = some (session.cursor.rest.take (templateLength session.cursor.rest))
  /-- Reading never goes back. -/
  forward : ∀ step ∈ [ScanStep.next, .template],
    session.cursor.offset ≤ (session.step step).2.cursor.offset
  /-- Looking ahead changes nothing. -/
  peek : (session.step .peek).2 = session
  /-- A token has the text at its span, takes up some of it and ends where reading goes on. -/
  next_token : ∀ token, (session.step .next).1 = some (.ok token) → token.kind ≠ .endOfFile →
    token.span.text source = token.text ∧
    session.cursor.offset < (session.step .next).2.cursor.offset ∧
    (session.step .next).2.cursor.offset = token.span.stop.toNat
  /-- So does a piece of a template, but for the dollar sign in front of an inserted expression, which
  is passed over. -/
  template_token : ∀ token, (session.step .template).1 = some (.ok token) →
    token.kind ≠ .endOfFile →
    token.span.text source = token.text ∧
    session.cursor.offset < (session.step .template).2.cursor.offset ∧
    (token.kind ≠ .dollarBrace →
      (session.step .template).2.cursor.offset = token.span.stop.toNat) ∧
    (token.kind = .dollarBrace →
      (session.step .template).2.cursor.offset = token.span.stop.toNat + 1 ∧
      (session.step .template).2.cursor.rest.head? = some '\x7b')
  /-- A fault stops in front of the refused character, and is found again until a piece of a template
  is read or the remembered place is gone back to. -/
  fault : ∀ e, (session.step .next).1 = some (.error e) →
    ∃ c cs, (session.step .next).2.cursor.rest = c :: cs ∧
      e = .unsupportedCharacter c (.ofOffsets (session.step .next).2.cursor.offset
        ((session.step .next).2.cursor.offset + c.utf8Size)) ∧
      ∀ steps, .template ∉ steps → .restore ∉ steps →
        ((session.step .next).2.after steps).cursor = (session.step .next).2.cursor ∧
        (((session.step .next).2.after steps).step .next).1 = some (.error e) ∧
        (((session.step .next).2.after steps).step .peek).1 = some (.error e)
  /-- At the end of the source both modes find the end. -/
  done : session.cursor.offset = source.utf8ByteSize → ∀ step ∈ [ScanStep.next, .template],
    ∃ token, (session.step step).1 = some (.ok token) ∧ token.kind = .endOfFile ∧
      token.span = .ofOffsets source.utf8ByteSize source.utf8ByteSize

/-- As long as no step reads a piece of a template or goes back, a session stays where a fault is. -/
lemma after_of_fault {e : SyntaxError} {steps : List ScanStep}
    (h : session.cursor.next = (.error e, session.cursor)) (htemplate : .template ∉ steps)
    (hrestore : .restore ∉ steps) : (session.after steps).cursor = session.cursor := by
  induction steps generalizing session with
  | nil => rfl
  | cons step steps ih =>
    rw [List.mem_cons, not_or] at htemplate hrestore
    have hstep : (session.step step).2.cursor = session.cursor := by
      cases step with
      | next => exact congrArg Prod.snd h
      | peek => rfl
      | template => exact absurd rfl htemplate.1
      | save => rfl
      | restore => exact absurd rfl hrestore.1
    rw [← hstep] at h
    exact (ih h htemplate.2 hrestore.2).trans hstep

/-- From places of a source on, all of the contract holds. -/
lemma In.contract (h : session.In source) (hsize : source.utf8ByteSize < UInt32.size) :
    session.Contract source where
  boundary := h.cursor.isBoundary
  offset_le := by
    have hadd := h.cursor.offset_add
    omega
  rest := h.cursor.dropBytes_offset
  walk := h.cursor.takeBytes_walkBytes
  forward := by
    simpa using ⟨h.cursor.le_next, session.cursor.le_nextTemplate⟩
  peek := rfl
  next_token := by
    intro token houtcome hkind
    have hnext : session.cursor.next = (.ok token, session.cursor.next.2) :=
      Prod.ext (Option.some.inj houtcome) rfl
    exact h.cursor.next_token hsize hnext hkind
  template_token := by
    intro token houtcome hkind
    have hnext : session.cursor.nextTemplate = (token, session.cursor.nextTemplate.2) :=
      Prod.ext (Except.ok.inj (Option.some.inj houtcome)) rfl
    exact h.cursor.template_token hsize hnext hkind
  fault := by
    intro e houtcome
    have hnext : session.cursor.next = (.error e, session.cursor.next.2) :=
      Prod.ext (Option.some.inj houtcome) rfl
    obtain ⟨hagain, c, cs, hrest, he⟩ := Cursor.next_of_error hnext
    refine ⟨c, cs, hrest, he, fun steps htemplate hrestore => ?_⟩
    have hstay := @after_of_fault (session.step .next).2 e steps hagain htemplate hrestore
    have herror : ((session.step .next).2.after steps).cursor.next.1 = .error e := by
      rw [hstay]
      exact congrArg Prod.fst hagain
    exact ⟨hstay, congrArg some herror, congrArg some herror⟩
  done := by
    intro hoffset
    have hrest := h.cursor.rest_of_offset hoffset
    have hnext : (session.step .next).1 = some (.ok (.endOfFile source.utf8ByteSize)) := by
      rw [Session.step, Cursor.next_of_nil hrest, hoffset]
    have htemplate : (session.step .template).1 = some (.ok (.endOfFile source.utf8ByteSize)) := by
      rw [Session.step, Cursor.nextTemplate_of_nil hrest, hoffset]
    simpa [hnext, htemplate] using ⟨rfl, rfl⟩

end Session

/-- A session on a source keeps its contract, whichever steps it takes in whichever order. The size
keeps offsets within the 32 bits of a span. -/
theorem contract_after (source : String) (hsize : source.utf8ByteSize < UInt32.size)
    (steps : List ScanStep) : ((Session.ofSource source).after steps).Contract source := by
  have hstart : (Session.ofSource source).In source :=
    ⟨Cursor.In.ofSource source, Cursor.In.ofSource source⟩
  exact (hstart.after steps).contract hsize

theorem contract_behind_insertion :
    "`\\é$\x7b@".utf8ByteSize < UInt32.size ∧
      ((Session.ofSource "`\\é$\x7b@").run [.next, .template, .next, .next, .peek]).map Prod.fst =
        [some (.ok ⟨.backtick, "`", ⟨0, 1⟩⟩), some (.ok ⟨.dollarBrace, "\\é", ⟨1, 4⟩⟩),
         some (.ok ⟨.lBrace, "\x7b", ⟨5, 6⟩⟩), some (.error (.unsupportedCharacter '@' ⟨6, 7⟩)),
         some (.error (.unsupportedCharacter '@' ⟨6, 7⟩))] ∧
      ((Session.ofSource "`\\é$\x7b@").after [.next, .template, .next]).Contract
        "`\\é$\x7b@" := by
  have hsize : "`\\é$\x7b@".utf8ByteSize < UInt32.size := by decide
  exact ⟨hsize, by decide +kernel, contract_after _ hsize [.next, .template, .next]⟩

end ScriptTree
