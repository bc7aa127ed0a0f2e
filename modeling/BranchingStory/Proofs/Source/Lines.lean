import BranchingStory.Proofs.Text.Boundary
import BranchingStory.Source

/-! # Finding lines

The bisection over the lines of a source ends at the last line that begins at or before an offset. Hence
a position of a boundary has that boundary as its offset, and no number of a position is much larger than
the source. -/

namespace BranchingStory.LineIndex
open Text
set_option autoImplicit false

/-! ## The lines of a source -/

theorem mem_linesWithin {offset : Nat} {text : List Char} {line : Line} :
    line ∈ linesWithin offset text ↔
      ∃ before behind, text = before ++ '\n' :: behind ∧ line = ⟨offset + byteLength before + 1, behind⟩ := by
  induction text generalizing offset with
  | nil => simp [linesWithin]
  | cons c rest ih =>
    have hrest : line ∈ linesWithin (offset + c.utf8Size) rest ↔ ∃ before behind,
        rest = before ++ '\n' :: behind ∧ line = ⟨offset + byteLength (c :: before) + 1, behind⟩ := by
      rw [ih]
      simp only [byteLength_cons, Nat.add_assoc]
    have hsplit : (∃ before behind, c :: rest = before ++ '\n' :: behind ∧
          line = ⟨offset + byteLength before + 1, behind⟩) ↔
        (c = '\n' ∧ line = ⟨offset + 1, rest⟩) ∨ ∃ before behind,
          rest = before ++ '\n' :: behind ∧ line = ⟨offset + byteLength (c :: before) + 1, behind⟩ := by
      constructor
      · rintro ⟨before, behind, htext, hline⟩
        cases before with
        | nil =>
          obtain ⟨rfl, rfl⟩ := List.cons.inj htext
          exact .inl ⟨rfl, hline⟩
        | cons d before =>
          obtain ⟨rfl, hrest⟩ := List.cons.inj htext
          exact .inr ⟨before, behind, hrest, hline⟩
      · rintro (⟨rfl, hline⟩ | ⟨before, behind, hrest, hline⟩)
        · exact ⟨[], rest, rfl, hline⟩
        · exact ⟨c :: before, behind, by rw [hrest]; rfl, hline⟩
    rw [hsplit, ← hrest, linesWithin]
    split
    · next hc =>
      have hsize : '\n'.utf8Size = 1 := rfl
      simp only [List.mem_cons, hc, hsize, true_and]
    · next hc => simp only [hc, false_and, false_or]

theorem pairwise_linesWithin (offset : Nat) (text : List Char) :
    (linesWithin offset text).Pairwise (·.start < ·.start) := by
  induction text generalizing offset with
  | nil => exact .nil
  | cons c rest ih =>
    rw [linesWithin]
    split
    · refine List.pairwise_cons.mpr ⟨fun line hline => ?_, ih _⟩
      obtain ⟨before, behind, -, rfl⟩ := mem_linesWithin.mp hline
      show offset + c.utf8Size < offset + c.utf8Size + byteLength before + 1
      omega
    · exact ih _

theorem length_linesWithin_le (offset : Nat) (text : List Char) :
    (linesWithin offset text).length ≤ text.length := by
  induction text generalizing offset with
  | nil => exact Nat.le_refl _
  | cons c rest ih =>
    have hrest := ih (offset + c.utf8Size)
    rw [linesWithin]
    split
    · rw [List.length_cons, List.length_cons]
      omega
    · rw [List.length_cons]
      omega

theorem mem_lines {text : List Char} {line : Line} :
    line ∈ (ofSource text).lines ↔ line = ⟨0, text⟩ ∨
      ∃ before behind, text = before ++ '\n' :: behind ∧ line = ⟨byteLength before + 1, behind⟩ := by
  rw [ofSource, List.mem_toArray, List.mem_cons, mem_linesWithin]
  simp only [Nat.zero_add]

theorem isBoundary_start {text : List Char} {line : Line} (h : line ∈ (ofSource text).lines) :
    IsBoundary text line.start := by
  rcases mem_lines.mp h with rfl | ⟨before, behind, rfl, rfl⟩
  · exact isBoundary_zero text
  · exact ⟨before ++ ['\n'], behind, by simp, by rw [byteLength_append]; rfl⟩

theorem start_lt_start {text : List Char} {i j : Nat} {first second : Line}
    (hi : (ofSource text).lines[i]? = some first) (hj : (ofSource text).lines[j]? = some second)
    (hlt : i < j) :
    first.start < second.start := by
  have hsorted : (⟨0, text⟩ :: linesWithin 0 text).Pairwise (fun a b : Line => a.start < b.start) := by
    refine List.pairwise_cons.mpr ⟨fun line hline => ?_, pairwise_linesWithin 0 text⟩
    obtain ⟨before, behind, -, rfl⟩ := mem_linesWithin.mp hline
    exact Nat.succ_pos _
  rw [ofSource, List.getElem?_toArray] at hi hj
  obtain ⟨hilt, rfl⟩ := List.getElem?_eq_some_iff.mp hi
  obtain ⟨hjlt, rfl⟩ := List.getElem?_eq_some_iff.mp hj
  exact List.pairwise_iff_getElem.mp hsorted i j hilt hjlt hlt

theorem line_eq_of_start {text : List Char} {a b : Line} (ha : a ∈ (ofSource text).lines)
    (hb : b ∈ (ofSource text).lines) (h : a.start = b.start) : a = b := by
  obtain ⟨i, hi⟩ := Array.getElem?_of_mem ha
  obtain ⟨j, hj⟩ := Array.getElem?_of_mem hb
  rcases Nat.lt_trichotomy i j with hlt | rfl | hlt
  · exact absurd h (Nat.ne_of_lt (start_lt_start hi hj hlt))
  · exact Option.some.inj (hi.symm.trans hj)
  · exact absurd h.symm (Nat.ne_of_lt (start_lt_start hj hi hlt))

/-! ## Bisection -/

theorem beginsBy_iff {index : LineIndex} {offset number : Nat} :
    index.beginsBy offset number = true ↔ ∃ line, index.lines[number]? = some line ∧ line.start ≤ offset := by
  rw [beginsBy]
  split
  · next line hline => simp [hline]
  · next hnone => simp [hnone]

/-- Bisection ends at the last line that begins in time, if the first one does and those that do come
first. -/
theorem bisect_spec (index : LineIndex) (offset lo hi : Nat) (hlo : index.beginsBy offset lo = true)
    (hhi : ∀ k, hi ≤ k → index.beginsBy offset k = false)
    (hdown : ∀ j k, j ≤ k → index.beginsBy offset k = true → index.beginsBy offset j = true) :
    index.beginsBy offset (index.bisect offset lo hi) = true ∧
      ∀ k, index.bisect offset lo hi < k → index.beginsBy offset k = false := by
  fun_induction index.bisect offset lo hi with
  | case1 lo hi h middle hmiddle ih => exact ih hmiddle hhi
  | case2 lo hi h middle hmiddle ih =>
    refine ih hlo fun k hk => ?_
    exact Bool.eq_false_iff.mpr fun htrue => hmiddle (hdown middle k hk htrue)
  | case3 lo hi h => exact ⟨hlo, fun k hk => hhi k (by omega)⟩

section OfSource
variable (text : List Char) (offset : Nat)

theorem lineNumber_spec :
    (ofSource text).beginsBy offset ((ofSource text).lineNumber offset) = true ∧
      ∀ k, (ofSource text).lineNumber offset < k → (ofSource text).beginsBy offset k = false := by
  refine bisect_spec _ _ _ _ ?_ ?_ ?_
  · exact beginsBy_iff.mpr ⟨⟨0, text⟩, rfl, Nat.zero_le _⟩
  · intro k hk
    refine Bool.eq_false_iff.mpr fun htrue => ?_
    obtain ⟨line, hline, -⟩ := beginsBy_iff.mp htrue
    rw [Array.getElem?_eq_none hk] at hline
    exact absurd hline (by simp)
  · intro j k hjk hk
    obtain ⟨line, hline, hle⟩ := beginsBy_iff.mp hk
    rcases Nat.lt_or_eq_of_le hjk with hlt | rfl
    · have hsize : k < (ofSource text).lines.size := (Array.getElem?_eq_some_iff.mp hline).1
      have hj : (ofSource text).lines[j]? = some (ofSource text).lines[j] :=
        Array.getElem?_eq_getElem (by omega)
      have hstart := start_lt_start hj hline hlt
      exact beginsBy_iff.mpr ⟨_, hj, by omega⟩
    · exact hk

theorem getElem?_lineNumber :
    (ofSource text).lines[(ofSource text).lineNumber offset]? = some ((ofSource text).lineAt offset) := by
  obtain ⟨line, hline, -⟩ := beginsBy_iff.mp (lineNumber_spec text offset).1
  rw [lineAt, Array.getD_eq_getD_getElem?, hline, Option.getD_some]

theorem lineAt_mem : (ofSource text).lineAt offset ∈ (ofSource text).lines :=
  Array.mem_of_getElem? (getElem?_lineNumber text offset)

theorem lineAt_start_le : ((ofSource text).lineAt offset).start ≤ offset := by
  obtain ⟨line, hline, hle⟩ := beginsBy_iff.mp (lineNumber_spec text offset).1
  rw [getElem?_lineNumber] at hline
  obtain rfl := Option.some.inj hline
  exact hle

/-- No line between the one that is found and the offset begins later. -/
theorem start_le_lineAt_start {line : Line} (hmem : line ∈ (ofSource text).lines)
    (hle : line.start ≤ offset) :
    line.start ≤ ((ofSource text).lineAt offset).start := by
  obtain ⟨k, hk⟩ := Array.getElem?_of_mem hmem
  have hbegins : (ofSource text).beginsBy offset k = true := beginsBy_iff.mpr ⟨line, hk, hle⟩
  rcases Nat.lt_trichotomy k ((ofSource text).lineNumber offset) with hlt | heq | hgt
  · exact Nat.le_of_lt (start_lt_start hk (getElem?_lineNumber text offset) hlt)
  · rw [heq, getElem?_lineNumber] at hk
    exact Nat.le_of_eq (congrArg Line.start (Option.some.inj hk).symm)
  · rw [(lineNumber_spec text offset).2 k hgt] at hbegins
    exact absurd hbegins (by simp)

/-! ## The size of a position -/

theorem position_line_le : ((ofSource text).position offset).line ≤ byteLength text + 1 := by
  have hsome := getElem?_lineNumber text (min offset (ofSource text).length)
  have hlt := (Array.getElem?_eq_some_iff.mp hsome).1
  have hsize : (ofSource text).lines.size = (linesWithin 0 text).length + 1 := by simp [ofSource]
  have hlines := length_linesWithin_le 0 text
  have hlength := length_le_byteLength text
  show (ofSource text).lineNumber _ + 1 ≤ _
  omega

theorem position_column_le : ((ofSource text).position offset).column ≤ byteLength text + 1 := by
  have hcolumn : ∀ (line : Line) (o : Nat), columnIn line o ≤ o := by
    intro line o
    rw [columnIn]
    split
    · next before hbefore =>
      have hbytes := byteLength_of_takeBytes? hbefore
      have hlength := length_le_byteLength before
      omega
    · omega
  have hmin : min offset (ofSource text).length ≤ byteLength text := Nat.min_le_right _ _
  have hle := hcolumn ((ofSource text).lineAt (min offset (ofSource text).length))
    (min offset (ofSource text).length)
  show columnIn _ _ + 1 ≤ _
  omega

end OfSource

end BranchingStory.LineIndex

namespace BranchingStory

theorem Source.length_eq (s : Source) : s.length = Text.byteLength s.text := by
  rw [length, s.index_eq]
  rfl

end BranchingStory
