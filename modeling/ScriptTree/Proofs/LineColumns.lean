import ScriptTree.Proofs.Positions
import ScriptTree.Proofs.Sessions

/-!
# Lines and columns of any offset

An offset may stand inside a character or behind the end of its source. Its line is still the number
of line feed bytes in front of it, and its column what is left behind the last of them, so a line
start and a column give the offset back and later offsets have later positions.

Main statement: `LineIndex.lineCol_counts`.
-/

namespace ScriptTree

/-- The byte of a line feed. -/
def lineFeed : UInt8 := 10

/-- The position just behind the last line feed among bytes, zero if there is none. -/
def behindLastFeed (bytes : List UInt8) : Nat :=
  (bytes.reverse.dropWhile (· != lineFeed)).length

/-- The positions just behind each line feed, when the bytes begin at `offset`. -/
def feedEnds (offset : Nat) : List UInt8 → List Nat
  | [] => []
  | byte :: bytes =>
    if byte = lineFeed then (offset + 1) :: feedEnds (offset + 1) bytes
    else feedEnds (offset + 1) bytes

lemma feedEnds_append (offset : Nat) (a b : List UInt8) :
    feedEnds offset (a ++ b) = feedEnds offset a ++ feedEnds (offset + a.length) b := by
  induction a generalizing offset with
  | nil => rfl
  | cons byte a ih =>
    have hoffset : offset + (byte :: a).length = offset + 1 + a.length := by
      rw [List.length_cons]
      omega
    rw [List.cons_append, feedEnds, feedEnds, ih, hoffset]
    split <;> rfl

lemma length_feedEnds (offset : Nat) (bytes : List UInt8) :
    (feedEnds offset bytes).length = bytes.count lineFeed := by
  induction bytes generalizing offset with
  | nil => rfl
  | cons byte bytes ih =>
    rw [feedEnds, List.count_cons]
    by_cases h : byte = lineFeed
    · rw [if_pos h, List.length_cons, ih, if_pos (beq_iff_eq.2 h)]
    · rw [if_neg h, ih, if_neg (by simpa using h), Nat.add_zero]

/-- The ends of line feeds lie among the bytes. -/
lemma bounds_of_mem_feedEnds {offset stop : Nat} {bytes : List UInt8}
    (h : stop ∈ feedEnds offset bytes) : offset < stop ∧ stop ≤ offset + bytes.length := by
  induction bytes generalizing offset with
  | nil => cases h
  | cons byte bytes ih =>
    have hrest : stop ∈ feedEnds (offset + 1) bytes →
        offset < stop ∧ stop ≤ offset + (byte :: bytes).length := by
      intro hmem
      have hbounds := ih hmem
      rw [List.length_cons]
      omega
    rw [feedEnds] at h
    split at h
    next =>
      rcases List.mem_cons.1 h with rfl | hmem
      · rw [List.length_cons]
        omega
      · exact hrest hmem
    next => exact hrest h

lemma pairwise_feedEnds (offset : Nat) (bytes : List UInt8) :
    (feedEnds offset bytes).Pairwise (· < ·) := by
  induction bytes generalizing offset with
  | nil => exact List.Pairwise.nil
  | cons byte bytes ih =>
    rw [feedEnds]
    split
    · exact List.pairwise_cons.2 ⟨fun stop hstop => (bounds_of_mem_feedEnds hstop).1, ih _⟩
    · exact ih _

/-- Where no byte is a line feed, there is no end of one. -/
lemma feedEnds_eq_nil {offset : Nat} {bytes : List UInt8} (h : lineFeed ∉ bytes) :
    feedEnds offset bytes = [] := by
  rw [← List.length_eq_zero_iff, length_feedEnds, List.count_eq_zero]
  exact h

/-- Of the ends of line feeds the last one is behind the last line feed. -/
lemma getLast_feedEnds (bytes : List UInt8) :
    (0 :: feedEnds 0 bytes).getLast (List.cons_ne_nil _ _) = behindLastFeed bytes := by
  induction bytes using List.reverseRecOn with
  | nil => rfl
  | append_singleton bytes byte ih =>
    unfold behindLastFeed at ih ⊢
    simp only [feedEnds_append, List.reverse_append, List.reverse_singleton, List.singleton_append,
      Nat.zero_add, feedEnds]
    by_cases h : byte = lineFeed
    · simp [h]
    · simp only [if_neg h, List.append_nil, ih]
      rw [List.dropWhile_cons_of_pos (by simpa using h)]

/-- The last line feed in front of a place ends there or before it. -/
lemma behindLastFeed_take_le (bytes : List UInt8) (n : Nat) :
    behindLastFeed (bytes.take n) ≤ n := by
  unfold behindLastFeed
  refine (List.length_dropWhile_le _ _).trans ?_
  rw [List.length_reverse, List.length_take]
  exact Nat.min_le_left _ _

lemma lineFeed_mem_utf8EncodeChar {c : Char} : lineFeed ∈ String.utf8EncodeChar c ↔ c = '\n' := by
  constructor
  · intro hmem
    obtain ⟨byte, tail, hbytes, -, hhigh⟩ := exists_utf8EncodeChar c
    rw [hbytes, List.mem_cons] at hmem
    rcases hmem with hfirst | htail
    · rw [← hfirst] at hbytes
      exact (eq_of_utf8EncodeChar (by decide) hbytes).1
    · exact absurd (hhigh _ htail) (by decide)
  · rintro rfl
    decide

/-- The line starts are the ends of the line feed bytes. -/
lemma startsAfterBreaks_eq (offset : Nat) (cs : List Char) :
    startsAfterBreaks offset cs = (feedEnds offset (bytesOf cs)).map UInt32.ofNat := by
  induction cs generalizing offset with
  | nil => rfl
  | cons c cs ih =>
    rw [startsAfterBreaks, bytesOf_cons, feedEnds_append, String.length_utf8EncodeChar]
    by_cases h : c = '\n'
    · subst h
      rw [if_pos rfl, ih]
      rfl
    · rw [if_neg h, ih, feedEnds_eq_nil (mt lineFeed_mem_utf8EncodeChar.1 h), List.nil_append]

namespace LineIndex

/-- The search splits the line starts: those at the offset or in front of it, and those behind. -/
lemma line_of_split {index : LineIndex} {offset : UInt32} {before behind : List UInt32}
    (hstarts : index.starts.toList = before ++ behind) (hne : before ≠ [])
    (hbefore : ∀ start ∈ before, start ≤ offset) (hbehind : ∀ start ∈ behind, offset < start) :
    index.line offset + 1 = before.length ∧
      index.start (index.line offset) = before.getLast hne := by
  have hpos : 0 < before.length := List.length_pos_iff.2 hne
  have hsize : index.starts.size = before.length + behind.length := by
    rw [← Array.length_toList, hstarts, List.length_append]
  have hstart : ∀ line, index.start line = (before ++ behind)[line]?.getD 0 := by
    intro line
    rw [start, Array.getD_eq_getD_getElem?, ← Array.getElem?_toList, hstarts]
  have hin : ∀ line (h : line < before.length), index.start line = before[line] := by
    intro line h
    rw [hstart, List.getElem?_append_left h, List.getElem?_eq_getElem h, Option.getD_some]
  have hout : ∀ line, before.length ≤ line → line < index.starts.size →
      offset < index.start line := by
    intro line hle hlt
    have hindex : line - before.length < behind.length := by omega
    rw [hstart, List.getElem?_append_right hle, List.getElem?_eq_getElem hindex, Option.getD_some]
    exact hbehind _ (List.getElem_mem hindex)
  have hfirst : index.start 0 ≤ offset := by
    rw [hin 0 hpos]
    exact hbefore _ (List.getElem_mem hpos)
  obtain ⟨hlt, hle, hnext⟩ := search_spec (show 0 < index.starts.size by omega) hfirst
  have hline : index.line offset + 1 = before.length := by
    unfold line
    -- neither a start behind the offset nor one that another start in front of it follows
    rcases Nat.lt_trichotomy (index.search offset 0 index.starts.size + 1) before.length with
      hless | heq | hmore
    · rcases hnext with hlast | hnext
      · omega
      · rw [hin _ hless] at hnext
        exact absurd (hbefore _ (List.getElem_mem hless)) (UInt32.not_le.2 hnext)
    · exact heq
    · exact absurd hle (UInt32.not_le.2 (hout _ (by omega) hlt))
  refine ⟨hline, ?_⟩
  have hlength : index.line offset < before.length := by omega
  rw [hin _ hlength, List.getLast_eq_getElem]
  congr 1
  omega

/-- What a binary search over the line starts answers for an offset: the line that starts there, or
else how many lines start in front of it. -/
inductive Answers (index : LineIndex) (offset : UInt32) : Except Nat Nat → Prop where
  | found {front back : List UInt32} (hstarts : index.starts.toList = front ++ offset :: back) :
      Answers index offset (.ok front.length)
  | missed {front back : List UInt32} (hstarts : index.starts.toList = front ++ back)
      (hfront : ∀ start ∈ front, start < offset) (hback : ∀ start ∈ back, offset < start) :
      Answers index offset (.error front.length)

lemma starts_ofSource (source : String) :
    (ofSource source).starts.toList =
      (0 :: feedEnds 0 (bytesOf source.toList)).map UInt32.ofNat := by
  rw [ofSource, List.map_cons, ← startsAfterBreaks_eq]
  rfl

section

variable {source : String} (hsize : source.utf8ByteSize < UInt32.size)

include hsize

/-- All line starts fit into 32 bits. -/
lemma lt_size_of_mem_feedEnds {stop : Nat} (h : stop ∈ 0 :: feedEnds 0 (bytesOf source.toList)) :
    stop < UInt32.size := by
  rcases List.mem_cons.1 h with rfl | hmem
  · decide
  · have hbounds := bounds_of_mem_feedEnds hmem
    rw [length_bytesOf, byteLength_toList] at hbounds
    omega

lemma toNat_starts_ofSource : (ofSource source).starts.toList.map UInt32.toNat =
    0 :: feedEnds 0 (bytesOf source.toList) := by
  rw [starts_ofSource, List.map_map]
  refine (List.map_congr_left fun stop hstop => ?_).trans (List.map_id _)
  exact UInt32.toNat_ofNat_of_lt' (lt_size_of_mem_feedEnds hsize hstop)

lemma pairwise_starts : (ofSource source).starts.toList.Pairwise (· < ·) := by
  have h : ((ofSource source).starts.toList.map UInt32.toNat).Pairwise (· < ·) := by
    rw [toNat_starts_ofSource hsize]
    exact List.pairwise_cons.2 ⟨fun stop hstop => (bounds_of_mem_feedEnds hstop).1,
      pairwise_feedEnds 0 _⟩
  exact (List.pairwise_map.1 h).imp UInt32.lt_iff_toNat_lt.2

/-- The line of an offset has as many line feeds in front of it as there are in front of the offset,
and starts behind the last of these. -/
lemma line_spec (offset : UInt32) :
    (ofSource source).line offset = ((bytesOf source.toList).take offset.toNat).count lineFeed ∧
      (ofSource source).line offset < (ofSource source).starts.size ∧
      ((ofSource source).start ((ofSource source).line offset)).toNat =
        behindLastFeed ((bytesOf source.toList).take offset.toNat) := by
  generalize hbefore : (bytesOf source.toList).take offset.toNat = before
  generalize hbehind : (bytesOf source.toList).drop offset.toNat = behind
  have hbytes : bytesOf source.toList = before ++ behind := by
    rw [← hbefore, ← hbehind, List.take_append_drop]
  have hle : ∀ stop ∈ 0 :: feedEnds 0 before, stop ≤ offset.toNat := by
    intro stop hmem
    rcases List.mem_cons.1 hmem with rfl | hmem
    · exact Nat.zero_le _
    · have hbounds := bounds_of_mem_feedEnds hmem
      rw [← hbefore, List.length_take] at hbounds
      omega
  have hlt : ∀ stop ∈ feedEnds before.length behind, offset.toNat < stop := by
    intro stop hmem
    have hbounds := bounds_of_mem_feedEnds hmem
    rw [← hbefore, ← hbehind, List.length_take, List.length_drop] at hbounds
    omega
  have hstarts : (ofSource source).starts.toList = (0 :: feedEnds 0 before).map UInt32.ofNat ++
      (feedEnds before.length behind).map UInt32.ofNat := by
    rw [starts_ofSource, hbytes, feedEnds_append, Nat.zero_add, ← List.cons_append, List.map_append]
  have hfits : ∀ stop ∈ (0 :: feedEnds 0 before) ++ feedEnds before.length behind,
      (UInt32.ofNat stop).toNat = stop := by
    intro stop hmem
    refine UInt32.toNat_ofNat_of_lt' (lt_size_of_mem_feedEnds hsize ?_)
    rwa [hbytes, feedEnds_append, Nat.zero_add, ← List.cons_append]
  obtain ⟨hline, hstart⟩ := @line_of_split _ offset _ _ hstarts (by simp)
    (by
      intro start hmem
      obtain ⟨stop, hstop, rfl⟩ := List.mem_map.1 hmem
      rw [UInt32.le_iff_toNat_le, hfits stop (List.mem_append_left _ hstop)]
      exact hle stop hstop)
    (by
      intro start hmem
      obtain ⟨stop, hstop, rfl⟩ := List.mem_map.1 hmem
      rw [UInt32.lt_iff_toNat_lt, hfits stop (List.mem_append_right _ hstop)]
      exact hlt stop hstop)
  have hlength : (ofSource source).starts.size = _ := congrArg List.length hstarts
  rw [List.length_append] at hlength
  refine ⟨?_, by omega, ?_⟩
  · rw [List.length_map, List.length_cons, length_feedEnds] at hline
    exact Nat.succ.inj hline
  · rw [hstart, List.getLast_map, hfits _ (List.mem_append_left _ (List.getLast_mem _)),
      getLast_feedEnds]

/-- An answer of a binary search leads to the line of the offset. -/
lemma line_of_answers {offset : UInt32} {answer : Except Nat Nat}
    (h : (ofSource source).Answers offset answer) :
    answer = .ok ((ofSource source).line offset) ∨
      answer = .error ((ofSource source).line offset + 1) := by
  cases h with
  | @found front back hstarts =>
    have hpairwise := pairwise_starts hsize
    rw [hstarts, List.pairwise_append, List.pairwise_cons] at hpairwise
    obtain ⟨-, ⟨hback, -⟩, hcross⟩ := hpairwise
    have hfront : ∀ start ∈ front, start < offset :=
      fun start hmem => hcross start hmem offset List.mem_cons_self
    rw [← List.singleton_append, ← List.append_assoc] at hstarts
    have hline := (line_of_split hstarts (by simp) ?_ hback).1
    · rw [List.length_append, List.length_singleton] at hline
      left
      congr 1
      omega
    · refine List.forall_mem_append.2 ⟨fun start hmem => UInt32.le_of_lt (hfront start hmem), ?_⟩
      exact List.forall_mem_singleton.2 (UInt32.le_refl offset)
  | @missed front back hstarts hfront hback =>
    have hne : front ≠ [] := by
      rintro rfl
      rw [starts_ofSource, List.map_cons, List.nil_append] at hstarts
      have hzero := hback _ (hstarts ▸ List.mem_cons_self)
      exact absurd hzero (UInt32.not_lt.2 UInt32.zero_le)
    have hline := (line_of_split hstarts hne
      (fun start hmem => UInt32.le_of_lt (hfront start hmem)) hback).1
    right
    rw [hline]

/-- Counting places an offset: its line is the number of line feeds among the bytes in front of it,
its column what is left behind the last of them. -/
lemma lineCol_spec (offset : UInt32) :
    ((ofSource source).lineCol offset).1.toNat = (ofSource source).line offset ∧
      ((ofSource source).lineCol offset).2.toNat +
        behindLastFeed ((bytesOf source.toList).take offset.toNat) = offset.toNat := by
  obtain ⟨hline, -, hstart⟩ := line_spec hsize offset
  have hcount := List.count_le_length (a := lineFeed)
    (l := (bytesOf source.toList).take offset.toNat)
  rw [List.length_take, length_bytesOf, byteLength_toList] at hcount
  have hle : (ofSource source).start ((ofSource source).line offset) ≤ offset := by
    rw [UInt32.le_iff_toNat_le, hstart]
    exact behindLastFeed_take_le _ _
  have hbound := behindLastFeed_take_le (bytesOf source.toList) offset.toNat
  refine ⟨UInt32.toNat_ofNat_of_lt' (by omega), ?_⟩
  unfold lineCol
  dsimp only
  rw [UInt32.toNat_sub_of_le _ _ hle, hstart]
  omega

end

/-- The position of an offset is found by counting, for every offset of 32 bits: also inside a
character and behind the end. The line is in the index and does not start behind the offset,
whatever a binary search for the offset answers. Positions give offsets back and keep their
order. -/
theorem lineCol_counts (source : String) (hsize : source.utf8ByteSize < UInt32.size) :
    (∀ offset : UInt32,
      let before := source.toByteArray.data.toList.take offset.toNat
      let position := (ofSource source).lineCol offset
      position.1.toNat = before.count lineFeed ∧
        behindLastFeed before ≤ offset.toNat ∧
        position.2.toNat = offset.toNat - behindLastFeed before ∧
        position.1.toNat < (ofSource source).starts.size ∧
        (ofSource source).start position.1.toNat ≤ offset ∧
        (ofSource source).start position.1.toNat + position.2 = offset ∧
        (∀ line, (ofSource source).Answers offset (.ok line) → line = position.1.toNat) ∧
        (∀ next, (ofSource source).Answers offset (.error next) →
          0 < next ∧ next - 1 = position.1.toNat)) ∧
    ∀ a b : UInt32, a < b →
      Prod.Lex (· < ·) (· < ·) ((ofSource source).lineCol a) ((ofSource source).lineCol b) := by
  rw [← bytesOf_toList]
  constructor
  · intro offset
    obtain ⟨hline, hcolumn⟩ := lineCol_spec hsize offset
    obtain ⟨hcount, hin, hstart⟩ := line_spec hsize offset
    dsimp only
    rw [hline]
    refine ⟨hcount, by omega, by omega, hin, ?_, ?_, ?_, ?_⟩
    · rw [UInt32.le_iff_toNat_le, hstart]
      omega
    · exact (UInt32.add_comm _ _).trans (UInt32.sub_add_cancel _ _)
    · intro line h
      rcases line_of_answers hsize h with heq | heq
      · exact Except.ok.inj heq
      · cases heq
    · intro next h
      rcases line_of_answers hsize h with heq | heq
      · cases heq
      · rw [Except.error.inj heq]
        exact ⟨Nat.succ_pos _, rfl⟩
  · intro a b hlt
    obtain ⟨hline, hcolumn⟩ := lineCol_spec hsize a
    obtain ⟨hline', hcolumn'⟩ := lineCol_spec hsize b
    obtain ⟨hcount, -, hstart⟩ := line_spec hsize a
    obtain ⟨hcount', -, hstart'⟩ := line_spec hsize b
    rw [UInt32.lt_iff_toNat_lt] at hlt
    have hle : (ofSource source).line a ≤ (ofSource source).line b := by
      rw [hcount, hcount']
      exact (List.take_sublist_take_left (Nat.le_of_lt hlt)).count_le lineFeed
    rw [Prod.lex_def, UInt32.lt_iff_toNat_lt, UInt32.lt_iff_toNat_lt, ← UInt32.toNat_inj, hline,
      hline']
    rcases Nat.lt_or_eq_of_le hle with hless | heq
    · exact Or.inl hless
    · rw [heq, hstart'] at hstart
      exact Or.inr ⟨heq, by omega⟩

/-- An offset behind the end of a source with an empty line, and one inside a character. -/
theorem lineCol_counts_behind_end :
    "é\n\nx".utf8ByteSize < UInt32.size ∧
      ((ofSource "é\n\nx").lineCol 9).1.toNat = 2 ∧
      ((ofSource "é\n\nx").lineCol 9).2.toNat = 5 ∧
      (ofSource "é\n\nx").Answers 9 (.error 3) ∧
      Prod.Lex (· < ·) (· < ·) ((ofSource "é\n\nx").lineCol 1) ((ofSource "é\n\nx").lineCol 9) := by
  have hsize : "é\n\nx".utf8ByteSize < UInt32.size := by decide
  obtain ⟨hcounts, horder⟩ := lineCol_counts "é\n\nx" hsize
  obtain ⟨hline, -, hcolumn, -⟩ := hcounts 9
  refine ⟨hsize, hline.trans (by decide), hcolumn.trans (by decide), ?_,
    horder 1 9 (by decide)⟩
  exact @Answers.missed _ 9 [0, 3, 4] [] (by decide) (by simp) (by simp)

end LineIndex

end ScriptTree
