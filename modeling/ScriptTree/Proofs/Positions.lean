import ScriptTree.Proofs.Scan
import ScriptTree.Source.Lines

/-!
# Lines and columns

`lineStart` says where a line starts by walking along the text, without an index. The index agrees
with it, and the line found for an offset is the one that starts behind the last line feed in front
of it.

Main statement: `LineIndex.lineCol_ofSource`.
-/

namespace ScriptTree

/-- The offset at which a line starts: just behind that many line feeds. -/
def lineStart : List Char → Nat → Nat
  | _, 0 => 0
  | [], _ + 1 => 0
  | c :: cs, n + 1 => c.utf8Size + lineStart cs (if c = '\n' then n else n + 1)

lemma lineStart_zero (cs : List Char) : lineStart cs 0 = 0 := by
  cases cs <;> rfl

lemma lineStart_cons_succ (c : Char) (cs : List Char) (n : Nat) :
    lineStart (c :: cs) (n + 1) = c.utf8Size + lineStart cs (if c = '\n' then n else n + 1) := rfl

/-- A line whose line feeds all stand in front of a place starts there or before it. -/
lemma lineStart_append_le {before : List Char} (after : List Char) {n : Nat}
    (hn : n ≤ before.count '\n') :
    lineStart (before ++ after) n ≤ byteLength before := by
  induction before generalizing n with
  | nil =>
    rw [List.count_nil, Nat.le_zero] at hn
    rw [hn, lineStart_zero]
    exact Nat.zero_le _
  | cons c before ih =>
    cases n with
    | zero =>
      rw [lineStart_zero]
      exact Nat.zero_le _
    | succ n =>
      rw [List.cons_append, lineStart_cons_succ, byteLength_cons]
      refine Nat.add_le_add_left (ih ?_) _
      rw [List.count_cons] at hn
      split <;> simp_all

/-- A line starts behind a place if one of its line feeds does. -/
lemma lt_lineStart_append {before : List Char} (after : List Char) {n : Nat}
    (hn : before.count '\n' < n) (hle : n ≤ (before ++ after).count '\n') :
    byteLength before < lineStart (before ++ after) n := by
  obtain ⟨n, rfl⟩ := Nat.exists_eq_succ_of_ne_zero (Nat.ne_zero_of_lt hn)
  induction before generalizing n with
  | nil =>
    cases after with
    | nil => cases hle
    | cons c after =>
      have hc := c.utf8Size_pos
      rw [List.nil_append, lineStart_cons_succ, byteLength_nil]
      omega
  | cons c before ih =>
    rw [List.cons_append, lineStart_cons_succ, byteLength_cons]
    rw [List.cons_append] at hle
    rw [List.count_cons] at hn hle
    refine Nat.add_lt_add_left ?_ _
    by_cases hc : c = '\n'
    · simp only [hc, beq_self_eq_true, if_true] at hn hle ⊢
      obtain ⟨n, rfl⟩ := Nat.exists_eq_succ_of_ne_zero (show n ≠ 0 by omega)
      exact ih n (by omega) (by omega)
    · simp only [beq_iff_eq, if_neg hc, Nat.add_zero] at hn hle ⊢
      exact ih n hn hle

lemma length_startsAfterBreaks (offset : Nat) (cs : List Char) :
    (startsAfterBreaks offset cs).length = cs.count '\n' := by
  induction cs generalizing offset with
  | nil => rfl
  | cons c cs ih =>
    rw [startsAfterBreaks, List.count_cons]
    split <;> simp_all

lemma startsAfterBreaks_getElem? (offset : Nat) {n : Nat} {cs : List Char}
    (hn : n < cs.count '\n') :
    (startsAfterBreaks offset cs)[n]? = some (UInt32.ofNat (offset + lineStart cs (n + 1))) := by
  induction cs generalizing offset n with
  | nil => cases hn
  | cons c cs ih =>
    rw [List.count_cons] at hn
    rw [startsAfterBreaks, lineStart_cons_succ]
    by_cases hc : c = '\n'
    · simp only [hc, if_true, beq_self_eq_true] at hn ⊢
      cases n with
      | zero => rw [List.getElem?_cons_zero, lineStart_zero, Nat.add_zero]
      | succ n => rw [List.getElem?_cons_succ, ih _ (by omega), Nat.add_assoc]
    · simp only [if_neg hc, beq_iff_eq, Nat.add_zero] at hn ⊢
      rw [ih _ hn, Nat.add_assoc]

namespace LineIndex

variable {index : LineIndex} {offset : UInt32} {low high : Nat}

/-- The search comes to a line that does not start behind the offset, while the next one does. -/
theorem search_spec (hlt : low < high) (hlow : index.start low ≤ offset) :
    index.search offset low high < high ∧
      index.start (index.search offset low high) ≤ offset ∧
      (index.search offset low high + 1 = high ∨
        offset < index.start (index.search offset low high + 1)) := by
  fun_induction search index offset low high with
  | case1 low high _ middle hmiddle ih => exact ih (by omega) hmiddle
  | case2 low high _ middle hmiddle ih =>
    obtain ⟨hbelow, hstart, hnext⟩ := ih (by omega) hlow
    refine ⟨by omega, hstart, Or.inr ?_⟩
    rcases hnext with heq | hnext
    · rw [heq]
      exact UInt32.not_le.1 hmiddle
    · exact hnext
  | case3 low high hstop => exact ⟨hlt, hlow, Or.inl (by omega)⟩

lemma size_ofSource (source : String) :
    (ofSource source).starts.size = source.toList.count '\n' + 1 := by
  simp [ofSource, length_startsAfterBreaks]

lemma start_ofSource {source : String} {line : Nat} (hline : line ≤ source.toList.count '\n') :
    (ofSource source).start line = UInt32.ofNat (lineStart source.toList line) := by
  cases line with
  | zero =>
    rw [lineStart_zero]
    rfl
  | succ line =>
    have hget := startsAfterBreaks_getElem? 0 (Nat.lt_of_succ_le hline)
    rw [Nat.zero_add] at hget
    simp [start, ofSource, hget]

/-- An offset in a source is in the line that starts behind the last line feed in front of it. -/
theorem lineCol_ofSource {source : String} {before after : List Char}
    (hsource : source.toList = before ++ after) (hsize : source.utf8ByteSize < UInt32.size) :
    (ofSource source).lineCol (UInt32.ofNat (byteLength before)) =
      (UInt32.ofNat (before.count '\n'),
        UInt32.ofNat (byteLength before) -
          UInt32.ofNat (lineStart source.toList (before.count '\n'))) := by
  have hbytes := byteLength_toList source
  rw [hsource, byteLength_append] at hbytes
  have hcount : source.toList.count '\n' = before.count '\n' + after.count '\n' := by
    rw [hsource, List.count_append]
  have htotal : ∀ {line}, line ≤ source.toList.count '\n' →
      lineStart source.toList line < UInt32.size := by
    intro line hline
    have hle := lineStart_append_le [] hline
    rw [List.append_nil, byteLength_toList] at hle
    omega
  have hoffset : (UInt32.ofNat (byteLength before)).toNat = byteLength before :=
    UInt32.toNat_ofNat_of_lt' (by omega)
  have hzero : (ofSource source).start 0 ≤ UInt32.ofNat (byteLength before) := UInt32.zero_le
  have hsome : 0 < (ofSource source).starts.size := by
    rw [size_ofSource]
    exact Nat.succ_pos _
  obtain ⟨hlt, hstart, hnext⟩ := search_spec hsome hzero
  have hline : (ofSource source).line (UInt32.ofNat (byteLength before)) = before.count '\n' := by
    unfold line
    generalize (ofSource source).search (UInt32.ofNat (byteLength before)) 0 _ = line at *
    rw [size_ofSource] at hlt hnext
    rw [start_ofSource (by omega), UInt32.le_iff_toNat_le, hoffset,
      UInt32.toNat_ofNat_of_lt' (htotal (by omega)), hsource] at hstart
    -- neither a line behind the offset nor one in front of its line is where the search stops
    rcases Nat.lt_trichotomy line (before.count '\n') with hless | heq | hmore
    · rcases hnext with hlast | hnext
      · omega
      · rw [start_ofSource (by omega), UInt32.lt_iff_toNat_lt, hoffset,
          UInt32.toNat_ofNat_of_lt' (htotal (by omega)), hsource] at hnext
        have hle := lineStart_append_le after (show line + 1 ≤ _ from hless)
        omega
    · exact heq
    · have hbehind := lt_lineStart_append after hmore (by rw [← hsource]; omega)
      omega
  unfold lineCol
  dsimp only
  rw [hline, start_ofSource (by omega)]

end LineIndex

end ScriptTree
