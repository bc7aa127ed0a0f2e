import BranchingStory.Proofs.Token.Comments
import BranchingStory.Proofs.Token.Cutting

/-! # Lines without tokens

A line of white space and comments has no token but its line feed. Put between two lines of a text it gives one
more blank line: what stands in front of it is laid out as before, and what stands behind it as well, only
further on. -/

namespace BranchingStory.Token
open Text
set_option autoImplicit false

/-! ## Remarks -/

/-- A line of white space and complete comments, with the line feed that ends it. -/
inductive Remark : List Char → Prop
  | feed : Remark ['\n']
  | blank {c : Char} {line : List Char} (hc : isSkippable c = true) (h : Remark line) : Remark (c :: line)
  | block {text line : List Char} (htext : Unclosed text) (h : Remark line) : Remark (comment text ++ line)
  | toEnd {text : List Char} (htext : '\n' ∉ text) : Remark ('/' :: '/' :: (text ++ ['\n']))

namespace Remark
variable {line : List Char}

/-- The line feed at the end of a remark that begins at the offset. -/
def stop (offset : Nat) (line : List Char) : Span := ⟨offset + byteLength line - 1, offset + byteLength line⟩

/-- The only token of a remark is the line feed at its end. -/
theorem lexemes_append (h : Remark line) (offset : Nat) (behind : List Char) :
    lexemes offset (line ++ behind) =
      mark .newline (stop offset line) :: lexemes (offset + byteLength line) behind := by
  induction h generalizing offset with
  | feed => exact lexemes_lineFeed behind offset
  | blank hc h ih =>
    rw [List.cons_append, lexemes_blank hc, ih, stop, stop, byteLength_cons, Nat.add_assoc]
  | block htext h ih =>
    rw [List.append_assoc, lexemes_comment htext, ih, stop, stop, byteLength_append, Nat.add_assoc]
  | @toEnd text htext =>
    have hlength : offset + byteLength ('/' :: '/' :: (text ++ ['\n'])) =
        offset + byteLength ('/' :: '/' :: text) + 1 := by
      simp only [byteLength_cons, byteLength_append, byteLength_nil]
      have hfeed : '\n'.utf8Size = 1 := rfl
      omega
    rw [List.cons_append, List.cons_append, List.append_assoc, List.singleton_append, lexemes_lineComment htext,
      lexemes_lineFeed, stop, hlength]
    rfl

theorem exists_feed (h : Remark line) : ∃ init, line = init ++ ['\n'] := by
  induction h with
  | feed => exact ⟨[], rfl⟩
  | @blank c line hc h ih =>
    obtain ⟨init, rfl⟩ := ih
    exact ⟨c :: init, rfl⟩
  | @block text line htext h ih =>
    obtain ⟨init, rfl⟩ := ih
    exact ⟨comment text ++ init, (List.append_assoc _ _ _).symm⟩
  | @toEnd text htext => exact ⟨'/' :: '/' :: text, rfl⟩

end Remark

/-! ## Ends of lines -/

/-- Is the text in front empty, or does it end with a line feed that is a token? -/
def EndsLine (front behind : List Char) : Prop :=
  front = [] ∨ ∃ span, mark .newline span ∈ lexemes 0 (front ++ behind) ∧ span.stop = byteLength front

theorem append_eq_append_of_byteLength {a b x y : List Char} (h : a ++ x = b ++ y) (hlength : byteLength a = byteLength b) :
    a = b ∧ x = y := by
  have htake := takeBytes?_append a x
  rw [h, hlength, takeBytes?_append] at htake
  obtain rfl := Option.some.inj htake
  exact ⟨rfl, List.append_cancel_left h⟩

/-- The piece of a line feed is a line feed. -/
theorem exists_piece_lineFeed {text : List Char} {span : Span} (h : mark .newline span ∈ lexemes 0 text) :
    ∃ init behind, text = init ++ '\n' :: behind ∧ span = ⟨byteLength init, byteLength init + 1⟩ ∧
      ∃ p ∈ pieces 0 text, p.start = byteLength init := by
  rw [← lexemesOf_pieces] at h
  obtain ⟨p, hp, hlexeme⟩ := List.mem_filterMap.mp h
  obtain ⟨t, ht, hspan⟩ := Option.map_eq_some_iff.mp hlexeme
  obtain ⟨rfl, rfl⟩ := Located.mk.inj hspan
  have hpiece := apt_pieces 0 text p hp
  rw [Piece.Apt, ht] at hpiece
  obtain ⟨front, back, hsplit⟩ := List.append_of_mem hp
  have hplaced := placed_pieces 0 text
  have htext := textOf_pieces 0 text
  rw [hsplit] at hplaced htext
  have hstart : p.start = byteLength (Piece.textOf front) := by
    rw [(Piece.placed_append.mp hplaced).2.1, Nat.zero_add]
  refine ⟨Piece.textOf front, Piece.textOf back, ?_, ?_, p, hp, hstart⟩
  · rw [← htext, Piece.textOf_append, Piece.textOf_cons, hpiece.2]
    rfl
  · rw [Piece.stop, hpiece.2, ← hstart]
    rfl

namespace EndsLine
variable {front behind : List Char}

/-- A text that ends a line has the same tokens whatever stands behind it, and the last one is a line feed. -/
theorem cases (h : EndsLine front behind) : front = [] ∨ ∃ init, front = init ++ ['\n'] ∧
    ∀ other, lexemes 0 (front ++ other) = lexemes 0 init ++
      mark .newline ⟨byteLength init, byteLength init + 1⟩ :: lexemes (byteLength front) other := by
  obtain rfl | ⟨span, hspan, hstop⟩ := h
  · exact .inl rfl
  obtain ⟨init, rest, htext, rfl, hpiece⟩ := exists_piece_lineFeed hspan
  have hfeed : '\n'.utf8Size = 1 := rfl
  have hsplit : front ++ behind = (init ++ ['\n']) ++ rest := by rw [htext]; simp
  obtain ⟨rfl, rfl⟩ := append_eq_append_of_byteLength hsplit (by
    rw [byteLength_append, byteLength_cons, hfeed]
    exact hstop.symm)
  refine .inr ⟨init, rfl, fun other => ?_⟩
  rw [List.append_assoc] at hpiece ⊢
  obtain ⟨p, hp, hstart⟩ := hpiece
  have hcut := cuts_lineFeed.lexemes_append ⟨p, hp, hstart.trans (Nat.zero_add _).symm⟩ other
  rw [Nat.zero_add] at hcut
  rw [List.singleton_append, hcut, lexemes_lineFeed, byteLength_append]
  rfl

theorem lexemes_append (h : EndsLine front behind) (other : List Char) :
    lexemes 0 (front ++ other) = lexemes 0 front ++ lexemes (byteLength front) other := by
  obtain rfl | ⟨init, -, heq⟩ := h.cases
  · rw [lexemes.eq_def 0 []]
    rfl
  · have hown := heq []
    rw [List.append_nil, lexemes.eq_def _ []] at hown
    rw [heq, hown, List.append_assoc]
    rfl

theorem lastLine_eq (h : EndsLine front behind) : lastLine front = [] := by
  obtain rfl | ⟨init, rfl, -⟩ := h.cases
  · rfl
  · exact lastLine_append_of_mem (List.mem_singleton_self _) init

theorem isLineStart (h : EndsLine front behind) (other : List Char) :
    IsLineStart (front ++ other) (byteLength front) := by
  obtain rfl | ⟨init, rfl, -⟩ := h.cases
  · exact isLineStart_zero _
  · rw [List.append_assoc, byteLength_append]
    exact isLineStart_lineFeed init other

end EndsLine

/-! ## Lines of tokens -/

/-- Do the tokens end with a line feed, if there are any? -/
def Closed (ts : List Lexeme) : Prop := ∀ t ∈ ts.getLast?, t.node.isNewline = true

theorem EndsLine.closed {front behind : List Char} (h : EndsLine front behind) : Closed (lexemes 0 front) := by
  obtain rfl | ⟨init, -, heq⟩ := h.cases
  · rw [lexemes]
    simp [Closed]
  · have hown := heq []
    rw [List.append_nil, lexemes.eq_def _ []] at hown
    rw [hown]
    simp [Closed, mark, isNewline]

section Lines
variable {eof : Nat} {ts us : List Lexeme}

theorem Closed.of_cons {t : Lexeme} (h : Closed (t :: ts)) : Closed ts := by
  intro u hu
  cases ts with
  | nil => simp at hu
  | cons v ts => exact h u (by rwa [List.getLast?_cons_cons])

theorem splitLines_ne_nil (eof : Nat) (t : Lexeme) (ts : List Lexeme) : splitLines eof (t :: ts) ≠ [] := by
  rw [splitLines]
  split
  · simp
  · split <;> simp

/-- Behind a line feed other lines begin. -/
theorem Closed.splitLines_append (h : Closed ts) (us : List Lexeme) :
    splitLines eof (ts ++ us) = splitLines eof ts ++ splitLines eof us := by
  induction ts with
  | nil => rfl
  | cons t ts ih =>
    rw [List.cons_append, splitLines, splitLines, ih h.of_cons]
    split
    · rfl
    · next hnewline =>
      cases ts with
      | nil => exact absurd (h t rfl) hnewline
      | cons u ts =>
        obtain ⟨line, lines, hlines⟩ := List.exists_cons_of_ne_nil (splitLines_ne_nil eof u ts)
        rw [hlines]
        rfl

/-- Lines that are all ended do not depend on where the text ends. -/
theorem Closed.splitLines_eq (h : Closed ts) (eof' : Nat) : splitLines eof ts = splitLines eof' ts := by
  induction ts with
  | nil => rfl
  | cons t ts ih =>
    rw [splitLines, splitLines, ih h.of_cons]
    split
    · rfl
    · next hnewline =>
      cases ts with
      | nil => exact absurd (h t rfl) hnewline
      | cons u ts =>
        obtain ⟨line, lines, hlines⟩ := List.exists_cons_of_ne_nil (splitLines_ne_nil eof' u ts)
        rw [hlines]

/-- A line ends with a line feed of the text, or with the text. -/
theorem newline_of_mem_splitLines {line : TokenLine} (h : line ∈ splitLines eof ts) :
    (∃ t ∈ ts, t.span = line.newline) ∨ line.newline = ⟨eof, eof⟩ ∧ ¬ Closed ts := by
  induction ts generalizing line with
  | nil => simp [splitLines] at h
  | cons t ts ih =>
    have hmore : ∀ {line : TokenLine}, line ∈ splitLines eof ts →
        (∃ u ∈ t :: ts, u.span = line.newline) ∨ line.newline = ⟨eof, eof⟩ ∧ ¬ Closed (t :: ts) := by
      intro line hline
      obtain ⟨u, hu, hspan⟩ | ⟨hspan, hopen⟩ := ih hline
      · exact .inl ⟨u, List.mem_cons_of_mem _ hu, hspan⟩
      · exact .inr ⟨hspan, mt Closed.of_cons hopen⟩
    rw [splitLines] at h
    split at h
    · obtain rfl | h := List.mem_cons.mp h
      · exact .inl ⟨t, List.mem_cons_self, rfl⟩
      · exact hmore h
    · next hnewline =>
      split at h
      · next hnone =>
        obtain rfl := List.mem_singleton.mp h
        cases ts with
        | nil => exact .inr ⟨rfl, fun hclosed => hnewline (hclosed t rfl)⟩
        | cons u ts => exact absurd hnone (splitLines_ne_nil _ u ts)
      · next first lines hlines =>
        rw [hlines] at hmore
        obtain rfl | h := List.mem_cons.mp h
        · have hfirst := hmore (List.mem_cons_self : first ∈ first :: lines)
          exact hfirst
        · exact hmore (List.mem_cons_of_mem _ h)

end Lines

/-! ## Laying out -/

def TokenLine.shift (distance : Nat) (line : TokenLine) : TokenLine :=
  ⟨line.content.map (·.shift distance), line.newline.shift distance⟩

theorem splitLines_shift (distance eof : Nat) (ts : List Lexeme) :
    splitLines (eof + distance) (ts.map (·.shift distance)) = (splitLines eof ts).map (·.shift distance) := by
  induction ts with
  | nil => rfl
  | cons t ts ih =>
    have hnode : (t.shift distance).node.isNewline = t.node.isNewline := rfl
    rw [List.map_cons, splitLines, splitLines, hnode, ih]
    split
    · rfl
    · cases splitLines eof ts <;> rfl

theorem enterLine_shift (levels : List Nat) (width start first distance : Nat) :
    enterLine levels width (start + distance) (first + distance) =
      ((enterLine levels width start first).1.map (·.shift distance), (enterLine levels width start first).2) := by
  have hclosed : ∀ closed : List Nat, (closed.map fun _ => mark .dedent ⟨first + distance, first + distance⟩) =
      (closed.map fun _ => mark .dedent ⟨first, first⟩).map (·.shift distance) := by
    intro closed
    rw [List.map_map]
    rfl
  rw [enterLine, enterLine]
  split
  · rfl
  · dsimp only
    split
    · rw [hclosed]
    · rw [hclosed, List.map_append]
      rfl

/-- Does the second token stand on a line with the same margin as the first one, if that line begins so much
further on? -/
def SameMargin (index index' : LineIndex) (tab distance : Nat) (t u : Lexeme) : Prop :=
  indentWidth tab 0 (index'.lineAt u.span.start).text = indentWidth tab 0 (index.lineAt t.span.start).text ∧
    (index'.lineAt u.span.start).start = (index.lineAt t.span.start).start + distance

section LayOut
variable {index index' : LineIndex} {tab distance : Nat} {lines : List TokenLine}

/-- Lines that are moved as a whole are laid out as before, only further on. -/
theorem layOut_shift
    (h : ∀ line ∈ lines, ∀ t ∈ line.content, SameMargin index index' tab distance t (t.shift distance))
    (hlength : index'.length = index.length + distance) (levels : List Nat) :
    layOut index' tab levels (lines.map (·.shift distance)) =
      (layOut index tab levels lines).map (·.shift distance) := by
  induction lines generalizing levels with
  | nil =>
    rw [List.map_nil, layOut, layOut, hlength, List.map_map]
    rfl
  | cons line lines ih =>
    obtain ⟨hline, hlines⟩ := List.forall_mem_cons.mp h
    obtain ⟨content, newline⟩ := line
    cases content with
    | nil =>
      rw [List.map_cons, layOut, layOut]
      exact congrArg _ (ih hlines levels)
    | cons first more =>
      have hmargin : SameMargin index index' tab distance first (first.shift distance) :=
        hline first List.mem_cons_self
      obtain ⟨hwidth, hstart⟩ : indentWidth tab 0 (index'.lineAt (first.span.start + distance)).text =
          indentWidth tab 0 (index.lineAt first.span.start).text ∧
        (index'.lineAt (first.span.start + distance)).start = (index.lineAt first.span.start).start + distance :=
        hmargin
      show layOut index' tab levels
        (⟨first.shift distance :: more.map (·.shift distance), newline.shift distance⟩ ::
          lines.map (·.shift distance)) = _
      have hfirst : (first.shift distance).span.start = first.span.start + distance := rfl
      rw [layOut, layOut]
      dsimp only
      rw [hfirst, hwidth, hstart, enterLine_shift, ih hlines]
      simp only [List.map_append, List.map_cons]
      rfl

/-- Does the span lie in front of the offset? -/
def InFront (offset : Nat) (span : Span) : Prop := span.start < offset ∧ span.stop ≤ offset

theorem enterLine_inFront {levels : List Nat} {width start first limit : Nat} (hle : start ≤ first)
    (hfirst : first < limit) : ∀ t ∈ (enterLine levels width start first).1, InFront limit t.span := by
  have hclosed : ∀ closed : List Nat, ∀ t ∈ closed.map (fun _ => mark .dedent ⟨first, first⟩),
      InFront limit t.span := by
    intro closed t ht
    obtain ⟨level, -, rfl⟩ := List.mem_map.mp ht
    exact ⟨hfirst, Nat.le_of_lt hfirst⟩
  rw [enterLine]
  split
  · exact List.forall_mem_singleton.mpr ⟨hfirst, Nat.le_of_lt hfirst⟩
  · dsimp only
    split
    · exact hclosed _
    · refine List.forall_mem_append.mpr ⟨hclosed _, List.forall_mem_singleton.mpr ⟨?_, Nat.le_of_lt hfirst⟩⟩
      exact Nat.lt_of_le_of_lt hle hfirst

/-- Lines in front of others are laid out by themselves, and only the levels that they leave open matter behind. -/
theorem exists_layOut_front {limit : Nat}
    (h : ∀ line ∈ lines, InFront limit line.newline ∧ ∀ t ∈ line.content, InFront limit t.span ∧
      SameMargin index index' tab 0 t t ∧ (index.lineAt t.span.start).start ≤ t.span.start) (levels : List Nat) :
    ∃ front levels', (∀ t ∈ front, InFront limit t.span) ∧ (∀ t ∈ front.getLast?, t.node.isLayout = true) ∧ ∀ more,
      layOut index tab levels (lines ++ more) = front ++ layOut index tab levels' more ∧
      layOut index' tab levels (lines ++ more) = front ++ layOut index' tab levels' more := by
  induction lines generalizing levels with
  | nil => exact ⟨[], levels, by simp, by simp, fun more => ⟨rfl, rfl⟩⟩
  | cons line lines ih =>
    obtain ⟨⟨hnewline, hcontent⟩, hlines⟩ := List.forall_mem_cons.mp h
    obtain ⟨content, newline⟩ := line
    cases content with
    | nil =>
      obtain ⟨front, levels', hfront, hback, heq⟩ := ih hlines levels
      refine ⟨mark .blankLine newline :: front, levels', List.forall_mem_cons.mpr ⟨hnewline, hfront⟩,
        isLayout_getLast_cons hback, fun more => ?_⟩
      rw [List.cons_append, layOut, layOut]
      exact ⟨congrArg _ (heq more).1, congrArg _ (heq more).2⟩
    | cons first others =>
      obtain ⟨hfirst, ⟨hwidth, hstart⟩, hle⟩ := hcontent first List.mem_cons_self
      obtain ⟨front, levels', hfront, hback, heq⟩ := ih hlines
        (enterLine levels (indentWidth tab 0 (index.lineAt first.span.start).text)
          (index.lineAt first.span.start).start first.span.start).2
      refine ⟨(enterLine levels (indentWidth tab 0 (index.lineAt first.span.start).text)
          (index.lineAt first.span.start).start first.span.start).1 ++ (first :: others) ++
            mark .newline newline :: front, levels', ?_, isLayout_getLast_append hback, fun more => ?_⟩
      · refine List.forall_mem_append.mpr ⟨List.forall_mem_append.mpr ⟨?_, fun t ht => (hcontent t ht).1⟩, ?_⟩
        · exact enterLine_inFront hle hfirst.1
        · exact List.forall_mem_cons.mpr ⟨hnewline, hfront⟩
      · have hstart' : (index'.lineAt first.span.start).start = (index.lineAt first.span.start).start := hstart
        have hsplit : ∀ marks behind : List Lexeme,
            marks ++ first :: others ++ mark .newline newline :: (front ++ behind) =
              marks ++ first :: others ++ mark .newline newline :: front ++ behind := by simp
        rw [List.cons_append, layOut, layOut]
        dsimp only
        rw [hwidth, hstart', (heq more).1, (heq more).2, hsplit, hsplit]
        exact ⟨rfl, rfl⟩

end LayOut

/-! ## Positions of tokens -/

theorem Chained.bounds {text : List Char} {limit offset : Nat} {ts : List Lexeme} (h : Chained text limit offset ts) :
    ∀ t ∈ ts, offset ≤ t.span.start ∧ t.span.start < t.span.stop ∧ t.span.stop ≤ limit := by
  induction ts generalizing offset with
  | nil => simp
  | cons t ts ih =>
    obtain ⟨hstart, hlt, -, hstop, -, hrest⟩ := h
    have hmore := ih hrest
    have hlimit : t.span.stop ≤ limit := by
      cases ts with
      | nil => exact hrest
      | cons u ts =>
        obtain ⟨hle, hlt', hend⟩ := hmore u List.mem_cons_self
        omega
    refine List.forall_mem_cons.mpr ⟨⟨hstart, hlt, hlimit⟩, fun u hu => ?_⟩
    obtain ⟨hle, hlt', hend⟩ := hmore u hu
    exact ⟨by omega, hlt', hend⟩

theorem bounds_of_mem_lexemes {before behind : List Char} {t : Lexeme} (h : t ∈ lexemes (byteLength before) behind) :
    byteLength before ≤ t.span.start ∧ t.span.start < t.span.stop ∧
      t.span.stop ≤ byteLength (before ++ behind) :=
  (chained_lexemes before behind).bounds t h

theorem Laid.low_le {text : List Char} {low : Nat} {ts : List Lexeme} (h : Laid text low ts) :
    ∀ t ∈ ts, low ≤ t.span.start := by
  induction ts generalizing low with
  | nil => simp
  | cons t ts ih =>
    obtain ⟨hstart, hordered, -, -, -, hrest⟩ := h
    refine List.forall_mem_cons.mpr ⟨hstart, fun u hu => Nat.le_trans ?_ (ih hrest u hu)⟩
    rw [Cursor.endAfter]
    split
    · exact Nat.le_refl _
    · exact Nat.le_trans hstart hordered

theorem Laid.lt_of_proper {text : List Char} {low : Nat} {ts : List Lexeme} (h : Laid text low ts) :
    ∀ t ∈ ts, t.node.isLayout = false → t.span.start < t.span.stop := by
  induction ts generalizing low with
  | nil => simp
  | cons t ts ih =>
    obtain ⟨-, -, -, -, hjoined, hrest⟩ := h
    exact List.forall_mem_cons.mpr ⟨fun ht => ((joined_of_proper ht).mp hjoined).1, ih hrest⟩

theorem indentError_of_mem_enterLine {levels : List Nat} {width start first : Nat} {t : Lexeme}
    (h : t ∈ (enterLine levels width start first).1) (ht : t.node = .layout .indentError) :
    t.span = ⟨start, first⟩ ∧ width ≠ 0 := by
  have hclosed : ∀ closed : List Nat, t ∉ closed.map fun _ => mark .dedent ⟨first, first⟩ := by
    intro closed hmem
    obtain ⟨level, -, rfl⟩ := List.mem_map.mp hmem
    simp [mark] at ht
  rw [enterLine] at h
  split at h
  · rw [List.mem_singleton.mp h] at ht
    simp [mark] at ht
  · dsimp only at h
    split at h
    · exact absurd h (hclosed _)
    · next hfault =>
      obtain hmem | hmem := List.mem_append.mp h
      · exact absurd hmem (hclosed _)
      · refine ⟨by rw [List.mem_singleton.mp hmem]; rfl, ?_⟩
        rintro rfl
        -- No level is narrower than an empty margin, which is the base level.
        cases hopen : levels.dropWhile (0 < ·) with
        | nil => simp [hopen] at hfault
        | cons level rest =>
          have hnot := List.head?_dropWhile_not (0 < ·) levels
          rw [hopen] at hnot hfault
          simp at hnot
          exact hfault hnot

/-- The mark of a wrong indentation is as long as the indentation, which is not empty. -/
theorem lt_of_indentError {index : LineIndex} {tab : Nat} {levels : List Nat} {lines : List TokenLine}
    (h : ∀ line ∈ lines, ∀ t ∈ line.content, t.node.isLayout = false ∧
      (indentWidth tab 0 (index.lineAt t.span.start).text ≠ 0 → (index.lineAt t.span.start).start < t.span.start)) :
    ∀ t ∈ layOut index tab levels lines, t.node = .layout .indentError → t.span.start < t.span.stop := by
  have hother : ∀ {m : Layout} {span : Span}, m ≠ .indentError → (mark m span).node = .layout .indentError →
      span.start < span.stop := fun hm hnode => absurd (Token.layout.inj hnode) hm
  induction lines generalizing levels with
  | nil =>
    intro t ht
    rw [layOut] at ht
    obtain ⟨level, -, rfl⟩ := List.mem_map.mp ht
    exact hother (by simp)
  | cons line lines ih =>
    obtain ⟨hline, hlines⟩ := List.forall_mem_cons.mp h
    rw [layOut]
    split
    · exact List.forall_mem_cons.mpr ⟨hother (by simp), ih hlines⟩
    · next first others hcontent =>
      have hfirst : first ∈ line.content := by simp [hcontent]
      refine List.forall_mem_append.mpr ⟨List.forall_mem_append.mpr ⟨fun t ht hnode => ?_, fun t ht hnode => ?_⟩,
        List.forall_mem_cons.mpr ⟨hother (by simp), ih hlines⟩⟩
      · obtain ⟨hspan, hwidth⟩ := indentError_of_mem_enterLine ht hnode
        rw [hspan]
        exact (hline first hfirst).2 hwidth
      · exact absurd hnode (ne_layout (hline t ht).1 .indentError)

/-! ## A remark between lines -/

/-- A character in front of which a text goes on as another one does on its last line has the same margin there. -/
theorem sameMargin_of_lastLine {tab distance : Nat} {before before' rest rest' : List Char} {c : Char} {t u : Lexeme}
    (hc : isSkippable c = false) (hlast : lastLine before' = lastLine before)
    (hlength : byteLength before' = byteLength before + distance) (ht : t.span.start = byteLength before)
    (hu : u.span.start = byteLength before') :
    SameMargin (LineIndex.ofSource (before ++ c :: rest)) (LineIndex.ofSource (before' ++ c :: rest')) tab distance
      t u := by
  have hle := byteLength_lastLine_le before
  rw [SameMargin, ht, hu, indentWidth_lineAt hc, indentWidth_lineAt hc, lineAt_eq, lineAt_eq, margin, margin, hlast]
  exact ⟨rfl, by dsimp only; omega⟩

/-- A wide margin is on the line in front of the token. -/
theorem lineAt_start_lt {tab : Nat} {before behind : List Char} {t : Lexeme}
    (h : t ∈ lexemes (byteLength before) behind)
    (hwidth : indentWidth tab 0 ((LineIndex.ofSource (before ++ behind)).lineAt t.span.start).text ≠ 0) :
    ((LineIndex.ofSource (before ++ behind)).lineAt t.span.start).start < t.span.start := by
  obtain ⟨front, c, rest, rfl, hstart, hc⟩ := exists_place h
  rw [← List.append_assoc, hstart] at hwidth ⊢
  rw [indentWidth_lineAt hc, margin] at hwidth
  rw [lineAt_eq]
  have hle := byteLength_lastLine_le (before ++ front)
  cases hlast : lastLine (before ++ front) with
  | nil => exact absurd (by rw [hlast]; rfl) hwidth
  | cons d line =>
    have hpos := d.utf8Size_pos
    rw [hlast, byteLength_cons] at hle
    rw [byteLength_cons]
    dsimp only
    omega

/-- No mark of a wrong indentation is empty. -/
theorem lt_of_indentError_behind (tab : Nat) (levels : List Nat) (front behind : List Char) :
    ∀ t ∈ layOut (LineIndex.ofSource (front ++ behind)) tab levels
        (splitLines (byteLength (front ++ behind)) (lexemes (byteLength front) behind)),
      t.node = .layout .indentError → t.span.start < t.span.stop := by
  have hchained := linesChained_splitLines (chained_lexemes front behind)
  exact lt_of_indentError fun l hl u hu => ⟨hchained.proper l hl u hu, lineAt_start_lt (mem_splitLines hl hu)⟩

section Insertion
variable {front behind line : List Char}

/-- The lines in front of a place lie there as a whole, and have the same margins whatever stands behind it. -/
theorem EndsLine.lines_front (h : EndsLine front behind) (eof tab : Nat) (more more' : List Char) :
    ∀ l ∈ splitLines eof (lexemes 0 front), InFront (byteLength front) l.newline ∧
      ∀ t ∈ l.content, InFront (byteLength front) t.span ∧
        SameMargin (LineIndex.ofSource (front ++ more)) (LineIndex.ofSource (front ++ more')) tab 0 t t ∧
        ((LineIndex.ofSource (front ++ more)).lineAt t.span.start).start ≤ t.span.start := by
  have hinFront : ∀ t ∈ lexemes (byteLength []) front, InFront (byteLength front) t.span := by
    intro t ht
    obtain ⟨-, hlt, hle⟩ := bounds_of_mem_lexemes ht
    exact ⟨Nat.lt_of_lt_of_le hlt hle, hle⟩
  intro l hl
  refine ⟨?_, fun t ht => ?_⟩
  · obtain ⟨t, ht, hspan⟩ := (newline_of_mem_splitLines hl).resolve_right fun hopen => hopen.2 h.closed
    exact hspan ▸ hinFront t ht
  · have hmem : t ∈ lexemes (byteLength []) front := mem_splitLines hl ht
    obtain ⟨begun, c, rest, hsplit, hstart, hc⟩ := exists_place hmem
    refine ⟨hinFront t hmem, ?_, LineIndex.lineAt_start_le _ _⟩
    rw [hsplit, List.append_assoc, List.append_assoc, List.cons_append, List.cons_append]
    exact sameMargin_of_lastLine hc rfl rfl hstart hstart

/-- The lines behind a place have the same margins further on. -/
theorem lines_behind (eof tab : Nat) (hfront : lastLine front = []) (hline : lastLine line = []) (hfeed : '\n' ∈ line) :
    ∀ l ∈ splitLines eof (lexemes (byteLength front) behind), ∀ t ∈ l.content,
      SameMargin (LineIndex.ofSource (front ++ behind)) (LineIndex.ofSource (front ++ (line ++ behind))) tab
        (byteLength line) t (t.shift (byteLength line)) := by
  intro l hl t ht
  obtain ⟨begun, c, rest, rfl, hstart, hc⟩ := exists_place (mem_splitLines hl ht)
  have hlast : lastLine (front ++ line ++ begun) = lastLine (front ++ begun) := by
    refine lastLine_append_congr ?_ begun
    rw [lastLine_append_of_mem hfeed, hline, hfront]
  have hlength : byteLength (front ++ line ++ begun) = byteLength (front ++ begun) + byteLength line := by
    simp only [byteLength_append]
    omega
  have hsplit : front ++ (line ++ (begun ++ c :: rest)) = front ++ line ++ begun ++ c :: rest := by simp
  rw [hsplit, ← List.append_assoc]
  refine sameMargin_of_lastLine hc hlast hlength hstart ?_
  rw [hlength, ← hstart]
  rfl

/-- What stands behind a place: all of it begins there or later, and what has a length ends later. -/
structure Beyond (offset : Nat) (ts : List Lexeme) : Prop where
  start_le : ∀ t ∈ ts, offset ≤ t.span.start
  lt_stop : ∀ t ∈ ts, t.node.isLayout = false ∨ t.node = .layout .indentError → offset < t.span.stop

theorem EndsLine.beyond (h : EndsLine front behind) (tab : Nat) (levels : List Nat) :
    Beyond (byteLength front) (layOut (LineIndex.ofSource (front ++ behind)) tab levels
      (splitLines (byteLength (front ++ behind)) (lexemes (byteLength front) behind))) := by
  have hchained := linesChained_splitLines (chained_lexemes front behind)
  have hlaid : Laid (front ++ behind) (byteLength front) (layOut (LineIndex.ofSource (front ++ behind)) tab levels
      (splitLines (byteLength (front ++ behind)) (lexemes (byteLength front) behind))) :=
    laid_layOut tab hchained (isBoundary_append _ _) (fun _ => h.isLineStart behind) (Nat.le_refl _)
  refine ⟨hlaid.low_le, fun t ht hnode => Nat.lt_of_le_of_lt (hlaid.low_le t ht) ?_⟩
  obtain hproper | herror := hnode
  · exact hlaid.lt_of_proper t ht hproper
  · exact lt_of_indentError_behind tab levels front behind t ht herror

/-- A remark between two lines of a text is one blank line. What stands in front of it is laid out as before, and
what stands behind it as well, only further on. -/
theorem exists_tokens_remark (h : EndsLine front behind) (hline : Remark line) (tabWidth : Nat) :
    ∃ ahead later, tokens { text := front ++ behind } tabWidth = ahead ++ later ∧
      tokens { text := front ++ (line ++ behind) } tabWidth =
        ahead ++ mark .blankLine (Remark.stop (byteLength front) line) ::
          later.map (·.shift (byteLength line)) ∧
      (∀ t ∈ ahead, InFront (byteLength front) t.span) ∧ (∀ t ∈ ahead.getLast?, t.node.isLayout = true) ∧
      Beyond (byteLength front) later := by
  have hclosed := h.closed
  obtain ⟨init, hfeed⟩ := hline.exists_feed
  have hmem : '\n' ∈ line := by simp [hfeed]
  have hempty : lastLine line = [] := by
    rw [hfeed]
    exact lastLine_append_of_mem (List.mem_singleton_self _) init
  have hlength : byteLength (front ++ (line ++ behind)) = byteLength (front ++ behind) + byteLength line := by
    simp only [byteLength_append]
    omega
  obtain ⟨ahead, levels, hahead, hlast, hlayOut⟩ :=
    exists_layOut_front (h.lines_front (byteLength (front ++ behind)) (max tabWidth 1) behind (line ++ behind)) []
  refine ⟨ahead, _, ?_, ?_, hahead, hlast, h.beyond (max tabWidth 1) levels⟩
  · rw [tokens, Source.length_eq, h.lexemes_append, hclosed.splitLines_append]
    exact (hlayOut _).1
  · rw [tokens, Source.length_eq, h.lexemes_append, hclosed.splitLines_append, hline.lexemes_append,
      hclosed.splitLines_eq (byteLength (front ++ behind)), lexemes_shift, hlength]
    have hrest := layOut_shift
      (lines_behind (byteLength (front ++ behind)) (max tabWidth 1) h.lastLine_eq hempty hmem) hlength levels
    rw [← splitLines_shift] at hrest
    rw [← hrest]
    exact (hlayOut _).2

end Insertion

end BranchingStory.Token
