import BranchingStory.Proofs.Source.Lines

/-! # What stands where in a source

A text that stands at an offset of a source is the excerpt of its span. Offsets with no line feed between them
lie on one line. -/

namespace BranchingStory
open Text
set_option autoImplicit false

/-! ## Trimming -/

namespace Text

theorem trim_blanks {front : List Char} (h : ∀ c ∈ front, isBlank c = true) (text : List Char) :
    trim (front ++ text) = trim text := by
  rw [trim, trim, List.dropWhile_append_of_pos h]

theorem trim_append_blanks {back : List Char} (h : ∀ c ∈ back, isBlank c = true) (text : List Char) :
    trim (text ++ back) = trim text := by
  have hback : ∀ front : List Char, trimEnd (front ++ back) = trimEnd front := by
    intro front
    rw [trimEnd, trimEnd, List.reverse_append, List.dropWhile_append_of_pos]
    exact fun c hc => h c (List.mem_reverse.mp hc)
  rw [trim, trim, List.dropWhile_append, dropWhile_eq_nil_iff _ _ |>.mpr h]
  split
  · next hempty => rw [List.isEmpty_iff.mp hempty]
  · exact hback _

theorem trim_lineFeed (text : List Char) : trim (text ++ ['\n']) = trim text :=
  trim_append_blanks (by simp [isBlank]) text

end Text

/-! ## Texts and their places -/

namespace Source
variable {s : Source} {offset : Nat} {text more : List Char}

/-- Does the text stand at the offset? -/
def Holds (s : Source) (offset : Nat) (text : List Char) : Prop :=
  ∃ before behind, s.text = before ++ (text ++ behind) ∧ byteLength before = offset

theorem Holds.front (h : s.Holds offset (text ++ more)) : s.Holds offset text := by
  obtain ⟨before, behind, htext, hoffset⟩ := h
  exact ⟨before, more ++ behind, by rw [htext, List.append_assoc], hoffset⟩

theorem Holds.rest (h : s.Holds offset (text ++ more)) : s.Holds (offset + byteLength text) more := by
  obtain ⟨before, behind, htext, rfl⟩ := h
  refine ⟨before ++ text, behind, ?_, byteLength_append _ _⟩
  rw [htext, List.append_assoc, List.append_assoc]

theorem Holds.slice?_eq (h : s.Holds offset text) : s.slice? ⟨offset, offset + byteLength text⟩ = some text := by
  obtain ⟨before, behind, htext, rfl⟩ := h
  rw [slice?, if_pos (Nat.le_add_right _ _), htext, dropBytes?_append, Nat.add_sub_cancel_left]
  exact takeBytes?_append _ _

theorem Holds.excerpt_eq (h : s.Holds offset text) :
    s.excerpt ⟨offset, offset + byteLength text⟩ = String.ofList (trim text) := by
  rw [excerpt, h.slice?_eq, Option.getD_some]

theorem Holds.isBoundary (h : s.Holds offset text) : IsBoundary s.text offset := by
  obtain ⟨before, behind, htext, rfl⟩ := h
  exact ⟨before, text ++ behind, htext, rfl⟩

theorem Holds.le_length (h : s.Holds offset text) : offset + byteLength text ≤ s.length := by
  obtain ⟨before, behind, htext, rfl⟩ := h
  rw [s.length_eq, htext, byteLength_append, byteLength_append]
  omega

/-! ## Lines -/

/-- In front of the first line feed behind a place stands all text there that has none. -/
theorem byteLength_le_of_lineFeed {gap behind back : List Char} (hbreak : '\n' ∉ text)
    (h : text ++ behind = gap ++ '\n' :: back) : byteLength text ≤ byteLength gap := by
  rcases List.append_eq_append_iff.mp h with ⟨more, rfl, -⟩ | ⟨more, rfl, hmore⟩
  · rw [byteLength_append]
    omega
  · cases more with
    | nil => simp
    | cons c more =>
      obtain ⟨rfl, -⟩ := List.cons.inj hmore
      exact absurd (by simp) hbreak

/-- No line begins inside a text without a line feed, nor behind its last character. -/
theorem Holds.line_outside (h : s.Holds offset text) (hbreak : '\n' ∉ text) {line : Line}
    (hline : line ∈ (LineIndex.ofSource s.text).lines) :
    line.start ≤ offset ∨ offset + byteLength text < line.start := by
  obtain ⟨before, behind, htext, rfl⟩ := h
  rcases LineIndex.mem_lines.mp hline with rfl | ⟨front, back, hfront, rfl⟩
  · exact .inl (Nat.zero_le _)
  · rw [htext] at hfront
    rcases List.append_eq_append_iff.mp hfront with ⟨gap, rfl, hgap⟩ | ⟨gap, rfl, hgap⟩
    · refine .inr ?_
      have hle := byteLength_le_of_lineFeed hbreak hgap
      show byteLength before + byteLength text < byteLength (before ++ gap) + 1
      rw [byteLength_append]
      omega
    · cases gap with
      | nil =>
        refine .inr ?_
        have hsplit : text ++ behind = [] ++ '\n' :: back := hgap.symm
        have hle := byteLength_le_of_lineFeed hbreak hsplit
        show byteLength (front ++ []) + byteLength text < byteLength front + 1
        rw [List.append_nil]
        exact Nat.lt_succ_of_le (Nat.add_le_add_left hle _)
      | cons c gap =>
        obtain ⟨rfl, -⟩ := List.cons.inj hgap
        refine .inl ?_
        have hsize : '\n'.utf8Size = 1 := rfl
        show byteLength front + 1 ≤ byteLength (front ++ '\n' :: gap)
        rw [byteLength_append, byteLength_cons]
        omega

theorem lineNumber_le {a b : Nat}
    (h : ∀ line ∈ (LineIndex.ofSource s.text).lines, line.start ≤ a → line.start ≤ b) :
    (LineIndex.ofSource s.text).lineNumber a ≤ (LineIndex.ofSource s.text).lineNumber b := by
  have ha := (LineIndex.lineNumber_spec s.text a).1
  have hb := (LineIndex.lineNumber_spec s.text b).2
  obtain ⟨line, hline, hstart⟩ := LineIndex.beginsBy_iff.mp ha
  have hbegins := LineIndex.beginsBy_iff.mpr ⟨line, hline, h line (Array.mem_of_getElem? hline) hstart⟩
  refine Nat.not_lt.mp fun hlt => ?_
  rw [hb _ hlt] at hbegins
  exact absurd hbegins (by simp)

theorem line_mono {a b : Nat} (h : a ≤ b) : (s.index.position a).line ≤ (s.index.position b).line := by
  show s.index.lineNumber (min a s.index.length) + 1 ≤ s.index.lineNumber (min b s.index.length) + 1
  rw [s.index_eq]
  exact Nat.succ_le_succ (lineNumber_le fun line _ hstart => Nat.le_trans hstart (by omega))

/-- Offsets in a text without a line feed lie on one line. -/
theorem Holds.line_eq (h : s.Holds offset text) (hbreak : '\n' ∉ text) {a b : Nat}
    (ha : offset ≤ a ∧ a ≤ offset + byteLength text) (hb : offset ≤ b ∧ b ≤ offset + byteLength text) :
    (s.index.position a).line = (s.index.position b).line := by
  have hlength := h.le_length
  have hnumber : ∀ {a b : Nat}, offset ≤ a ∧ a ≤ offset + byteLength text → offset ≤ b →
      (LineIndex.ofSource s.text).lineNumber a ≤ (LineIndex.ofSource s.text).lineNumber b := by
    intro a b ha hb
    refine lineNumber_le fun line hline hstart => ?_
    rcases h.line_outside hbreak hline with hle | hlt <;> omega
  have hmin : ∀ {a : Nat}, a ≤ offset + byteLength text → min a s.index.length = a :=
    fun ha => Nat.min_eq_left (Nat.le_trans ha hlength)
  show s.index.lineNumber (min a s.index.length) + 1 = s.index.lineNumber (min b s.index.length) + 1
  rw [hmin ha.2, hmin hb.2, s.index_eq]
  exact congrArg (· + 1) (Nat.le_antisymm (hnumber ha hb.1) (hnumber hb ha.1))

end Source

end BranchingStory
