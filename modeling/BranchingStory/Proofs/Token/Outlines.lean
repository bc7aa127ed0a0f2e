import BranchingStory.Proofs.Source.Lines
import BranchingStory.Proofs.Token.Shape
import BranchingStory.Proofs.Token.Writing

/-! # Written outlines

An outline is a tree of lines. It is written with all lines of a block at one indentation, which is deeper
than that of the line in front of the block. The tokens of such a text are those of the lines with the marks
of the outline between them: what was written as a block is laid out as that block. -/

namespace BranchingStory.Token
open Text
set_option autoImplicit false

/-! ## Rows -/

/-- A line without its indentation. -/
structure Row where
  first : Token
  more : List Cell

namespace Row

/-- The tokens of the line at an indentation. -/
def cells (width : Nat) (r : Row) : List Cell := (width, r.first) :: r.more

def text (width : Nat) (r : Row) : List Char := Cell.text (r.cells width)

/-- The row as a line of a source. -/
def line (width : Nat) (r : Row) : List Char := r.text width ++ ['\n']

def place (offset width : Nat) (r : Row) : List Lexeme := Cell.place offset (r.cells width)

/-- The line feed behind the row. -/
def feed (offset width : Nat) (r : Row) : Span :=
  ⟨offset + byteLength (r.text width), offset + byteLength (r.line width)⟩

def Apart (r : Row) : Prop := Cell.Apart (r.cells 0)

variable {r : Row} {offset width : Nat}

theorem apart_cells (h : r.Apart) (width : Nat) : Cell.Apart (r.cells width) := h

theorem byteLength_line (r : Row) (width : Nat) : byteLength (r.line width) = byteLength (r.text width) + 1 := by
  rw [line, byteLength_append]
  rfl

theorem lexemes_line (h : r.Apart) (behind : List Char) :
    lexemes offset (r.line width ++ behind) =
      r.place offset width ++ mark .newline (r.feed offset width) ::
        lexemes (offset + byteLength (r.line width)) behind := by
  have hnext : offset + byteLength (r.line width) = offset + byteLength (r.text width) + 1 := by
    rw [byteLength_line, Nat.add_assoc]
  rw [feed, hnext, line, List.append_assoc, List.singleton_append, text,
    Cell.lexemes_text (r.apart_cells h width) ('\n' :: behind) (by simp), lexemes_lineFeed]
  rfl

theorem isLayout_of_apart {cells : List Cell} (h : Cell.Apart cells) {offset : Nat} :
    ∀ t ∈ Cell.place offset cells, t.node.isLayout = false := by
  induction cells generalizing offset with
  | nil => simp [Cell.place]
  | cons cell cells ih =>
    obtain ⟨gap, t⟩ := cell
    obtain ⟨ht, -, hrest⟩ := h
    refine List.forall_mem_cons.mpr ⟨?_, ih hrest⟩
    cases t with
    | layout mark => exact absurd ht id
    | _ => rfl

theorem isLayout_place (h : r.Apart) : ∀ t ∈ r.place offset width, t.node.isLayout = false :=
  isLayout_of_apart (r.apart_cells h width)

theorem place_eq (r : Row) (offset width : Nat) :
    r.place offset width = ⟨r.first, ⟨offset + width, offset + width + byteLength r.first.spell⟩⟩ ::
      Cell.place (offset + width + byteLength r.first.spell) r.more := rfl

/-- Behind the indentation stands a character that is none. -/
theorem exists_line_eq (h : r.Apart) (width : Nat) :
    ∃ c rest, r.line width = List.replicate width ' ' ++ c :: rest ∧ isSkippable c = false := by
  obtain ⟨c, tail, hspell, hskip, -⟩ := scan_spell h.1 (Cell.endsBefore_text h [] (by simp))
  refine ⟨c, tail ++ (Cell.text r.more ++ ['\n']), ?_, hskip⟩
  rw [line, text, cells, Cell.text_cons, hspell]
  simp only [List.append_assoc, List.cons_append]

end Row

/-! ## Lines -/

/-- Rows with their indentations. -/
abbrev Rows := List (Nat × Row)

namespace Rows

def text (rows : Rows) : List Char := rows.flatMap fun (width, r) => r.line width

def lines (offset : Nat) : Rows → List TokenLine
  | [] => []
  | (width, r) :: rest =>
    ⟨r.place offset width, r.feed offset width⟩ :: lines (offset + byteLength (r.line width)) rest

/-- Where the first token stands, or what is behind the rows if there are none. -/
def first (offset behind : Nat) : Rows → Nat
  | [] => behind
  | (width, _) :: _ => offset + width

@[simp] theorem text_nil : text [] = [] := rfl

@[simp] theorem text_cons (width : Nat) (r : Row) (rest : Rows) :
    text ((width, r) :: rest) = r.line width ++ text rest := rfl

theorem text_append (rows more : Rows) : text (rows ++ more) = text rows ++ text more := List.flatMap_append

theorem splitLines_append {eof : Nat} {content rest : List Lexeme} {newline : Span}
    (h : ∀ t ∈ content, t.node.isLayout = false) :
    splitLines eof (content ++ mark .newline newline :: rest) = ⟨content, newline⟩ :: splitLines eof rest := by
  induction content with
  | nil => rfl
  | cons t content ih =>
    obtain ⟨ht, hcontent⟩ := List.forall_mem_cons.mp h
    rw [List.cons_append, splitLines, if_neg (by simp [isNewline_eq_false ht]), ih hcontent]

/-- The text of rows is cut into their lines. -/
theorem splitLines_lexemes {rows : Rows} (h : ∀ row ∈ rows, row.2.Apart) (eof offset : Nat) :
    splitLines eof (lexemes offset (text rows)) = lines offset rows := by
  induction rows generalizing offset with
  | nil =>
    rw [text_nil, lexemes]
    rfl
  | cons row rows ih =>
    obtain ⟨width, r⟩ := row
    obtain ⟨hr, hrows⟩ := List.forall_mem_cons.mp h
    rw [text_cons, Row.lexemes_line hr, splitLines_append (Row.isLayout_place hr), ih hrows, lines]

end Rows

/-! ## Indentation -/

theorem indentWidth_blanks {c : Char} (h : isSkippable c = false) (tab n width : Nat) (rest : List Char) :
    indentWidth tab n (List.replicate width ' ' ++ c :: rest) = n + width := by
  induction width generalizing n with
  | zero =>
    simp only [isSkippable, Bool.or_eq_false_iff, beq_eq_false_iff_ne] at h
    simp [indentWidth, h]
  | succ width ih =>
    rw [List.replicate_succ, List.cons_append, indentWidth, if_pos (.inl rfl), ih]
    omega

theorem exists_before {text : List Char} {line : Line} (h : line ∈ (LineIndex.ofSource text).lines) :
    ∃ before, text = before ++ line.text ∧ byteLength before = line.start := by
  rcases LineIndex.mem_lines.mp h with rfl | ⟨before, behind, rfl, rfl⟩
  · exact ⟨[], rfl, rfl⟩
  · exact ⟨before ++ ['\n'], by simp, byteLength_append _ _⟩

/-- Behind a row another line begins. -/
theorem mem_lines_line {text behind : List Char} {r : Row} {offset width : Nat}
    (h : ⟨offset, r.line width ++ behind⟩ ∈ (LineIndex.ofSource text).lines) :
    ⟨offset + byteLength (r.line width), behind⟩ ∈ (LineIndex.ofSource text).lines := by
  obtain ⟨before, rfl, rfl⟩ := exists_before h
  refine LineIndex.mem_lines.mpr (.inr ⟨before ++ r.text width, behind, ?_, ?_⟩)
  · simp [Row.line]
  · rw [Row.byteLength_line, byteLength_append, Nat.add_assoc]

theorem mem_lines_rows {text behind : List Char} {rows : Rows} {offset : Nat}
    (h : ⟨offset, rows.text ++ behind⟩ ∈ (LineIndex.ofSource text).lines) :
    ⟨offset + byteLength rows.text, behind⟩ ∈ (LineIndex.ofSource text).lines := by
  induction rows generalizing offset with
  | nil => exact h
  | cons row rows ih =>
    obtain ⟨width, r⟩ := row
    rw [Rows.text_cons, List.append_assoc] at h
    rw [Rows.text_cons, byteLength_append, ← Nat.add_assoc]
    exact ih (mem_lines_line h)

theorem lineFeed_outside_blanks {before behind before' behind' : List Char} {width : Nat}
    (h : before ++ (List.replicate width ' ' ++ behind) = before' ++ '\n' :: behind') :
    byteLength before' < byteLength before ∨ byteLength before + width ≤ byteLength before' := by
  rcases List.append_eq_append_iff.mp h with ⟨inside, rfl, hinside⟩ | ⟨cut, rfl, hcut⟩
  · rcases List.append_eq_append_iff.mp hinside with ⟨more, rfl, -⟩ | ⟨left, hblanks, hleft⟩
    · refine .inr ?_
      rw [byteLength_append, byteLength_append, byteLength_blanks]
      omega
    · cases left with
      | nil =>
        refine .inr ?_
        have hlength : byteLength inside = width := by rw [← byteLength_blanks width, hblanks, List.append_nil]
        rw [byteLength_append]
        omega
      | cons c left =>
        obtain ⟨rfl, -⟩ := List.cons.inj hleft
        have hmem : '\n' ∈ List.replicate width ' ' := by
          rw [hblanks]
          exact List.mem_append_right _ List.mem_cons_self
        exact absurd (List.eq_of_mem_replicate hmem) (by decide)
  · cases cut with
    | nil =>
      cases width with
      | zero => exact .inr (by simp)
      | succ n => exact absurd hcut (by simp [List.replicate_succ])
    | cons c cut =>
      have hpos := c.utf8Size_pos
      refine .inl ?_
      rw [byteLength_append, byteLength_cons]
      omega

/-- No line begins inside the blanks at the front of a line. -/
theorem lineAt_blanks {text behind : List Char} {offset width : Nat}
    (h : ⟨offset, List.replicate width ' ' ++ behind⟩ ∈ (LineIndex.ofSource text).lines) :
    (LineIndex.ofSource text).lineAt (offset + width) = ⟨offset, List.replicate width ' ' ++ behind⟩ := by
  have hmem := LineIndex.lineAt_mem text (offset + width)
  have hle := LineIndex.lineAt_start_le text (offset + width)
  have hge := LineIndex.start_le_lineAt_start text (offset + width) h (Nat.le_add_right _ _)
  refine LineIndex.line_eq_of_start hmem h ?_
  dsimp only at hge ⊢
  rcases LineIndex.mem_lines.mp hmem with heq | ⟨before', behind', htext, heq⟩
  · rw [heq] at hge ⊢
    exact Nat.le_antisymm (Nat.zero_le _) hge
  · obtain ⟨before, htext', hbefore⟩ := exists_before h
    rw [heq] at hge hle ⊢
    dsimp only at hge hle hbefore htext' ⊢
    have houtside := lineFeed_outside_blanks (htext'.symm.trans htext)
    omega

/-! ## Entering lines -/

section EnterLine
variable {levels : List Nat} {width start first : Nat}

theorem enterLine_same (h : levels.headD 0 = width) : enterLine levels width start first = ([], levels) := by
  have hkept : levels.dropWhile (width < ·) = levels ∧ levels.takeWhile (width < ·) = [] := by
    cases levels with
    | nil => exact ⟨rfl, rfl⟩
    | cons level levels =>
      obtain rfl : level = width := h
      simp
  rw [enterLine, if_neg (by omega)]
  simp only [hkept, h, if_true, List.map_nil]

theorem enterLine_deeper (h : levels.headD 0 < width) :
    enterLine levels width start first = ([mark .indent ⟨first, first⟩], width :: levels) := by
  rw [enterLine, if_pos h]

/-- A line that is indented no deeper than the level around the innermost one closes that one first. -/
theorem enterLine_closing {level : Nat} (hlevel : width < level) (h : width ≤ levels.headD 0) :
    enterLine (level :: levels) width start first =
      (mark .dedent ⟨first, first⟩ :: (enterLine levels width start first).1,
        (enterLine levels width start first).2) := by
  have hdrop : (level :: levels).dropWhile (width < ·) = levels.dropWhile (width < ·) := by simp [hlevel]
  have htake : (level :: levels).takeWhile (width < ·) = level :: levels.takeWhile (width < ·) := by simp [hlevel]
  have hnot : ¬ (level :: levels).headD 0 < width := Nat.not_lt.mpr (Nat.le_of_lt hlevel)
  rw [enterLine, enterLine, if_neg hnot, if_neg (Nat.not_lt.mpr h)]
  dsimp only
  rw [hdrop, htake]
  split
  · rfl
  · rfl

end EnterLine

section LayOut
variable {text : List Char} {tab offset width : Nat} {levels : List Nat} {r : Row}

theorem layOut_line (hr : r.Apart) {behind : List Char}
    (hline : ⟨offset, r.line width ++ behind⟩ ∈ (LineIndex.ofSource text).lines) (lines : List TokenLine) :
    layOut (LineIndex.ofSource text) tab levels (⟨r.place offset width, r.feed offset width⟩ :: lines) =
      (enterLine levels width offset (offset + width)).1 ++ (r.place offset width ++
        mark .newline (r.feed offset width) :: layOut (LineIndex.ofSource text) tab
          (enterLine levels width offset (offset + width)).2 lines) := by
  obtain ⟨c, rest, hblanks, hskip⟩ := Row.exists_line_eq hr width
  have hat : (LineIndex.ofSource text).lineAt (offset + width) = ⟨offset, r.line width ++ behind⟩ := by
    rw [hblanks, List.append_assoc] at hline ⊢
    exact lineAt_blanks hline
  have hwidth : indentWidth tab 0 (r.line width ++ behind) = width := by
    rw [hblanks, List.append_assoc, List.cons_append, indentWidth_blanks hskip, Nat.zero_add]
  rw [layOut, Row.place_eq]
  dsimp only
  rw [hat, hwidth, List.append_assoc]

/-- A block is closed in front of the first line that is no deeper than the level around it. -/
theorem layOut_closing {level : Nat} {rows : Rows} (hrows : ∀ row ∈ rows, row.2.Apart)
    (hline : rows ≠ [] → ⟨offset, Rows.text rows⟩ ∈ (LineIndex.ofSource text).lines)
    (hlevel : levels.headD 0 < level) (hwidth : ∀ row ∈ rows.head?, row.1 ≤ levels.headD 0) :
    layOut (LineIndex.ofSource text) tab (level :: levels) (Rows.lines offset rows) =
      mark .dedent ⟨Rows.first offset (byteLength text) rows, Rows.first offset (byteLength text) rows⟩ ::
        layOut (LineIndex.ofSource text) tab levels (Rows.lines offset rows) := by
  cases rows with
  | nil => rfl
  | cons row rows =>
    obtain ⟨width, r⟩ := row
    have hr := (List.forall_mem_cons.mp hrows).1
    have hle : width ≤ levels.headD 0 := hwidth _ rfl
    have hmem := hline (by simp)
    rw [Rows.lines, layOut_line hr hmem, layOut_line hr hmem, enterLine_closing (by omega) hle]
    rfl

theorem layOut_opening {rows : Rows} (hrows : ∀ row ∈ rows, row.2.Apart)
    (hline : ⟨offset, Rows.text rows⟩ ∈ (LineIndex.ofSource text).lines) (hdeeper : levels.headD 0 < width)
    (hwidth : ∃ row ∈ rows.head?, row.1 = width) :
    layOut (LineIndex.ofSource text) tab levels (Rows.lines offset rows) =
      mark .indent ⟨offset + width, offset + width⟩ ::
        layOut (LineIndex.ofSource text) tab (width :: levels) (Rows.lines offset rows) := by
  obtain ⟨row, hrow, rfl⟩ := hwidth
  cases rows with
  | nil => simp at hrow
  | cons first rows =>
    obtain rfl : first = row := Option.some.inj hrow
    obtain ⟨width, r⟩ := first
    have hr := (List.forall_mem_cons.mp hrows).1
    have hsame : enterLine (width :: levels) width offset (offset + width) = ([], width :: levels) :=
      enterLine_same rfl
    rw [Rows.lines, layOut_line hr hline, layOut_line hr hline, enterLine_deeper hdeeper, hsame]
    rfl

end LayOut

/-! ## Outlines -/

/-- A tree of lines. The lines of a block are indented deeper than the line in front of it, by one blank
and those that are given. -/
inductive Outline where
  | done
  | line (r : Row) (rest : Outline)
  | block (r : Row) (deeper : Nat) (body rest : Outline)

namespace Outline

def rows (width : Nat) : Outline → Rows
  | .done => []
  | .line r rest => (width, r) :: rest.rows width
  | .block r deeper body rest => (width, r) :: (body.rows (width + deeper + 1) ++ rest.rows width)

/-- The text of the outline, whose outermost lines stand at the given indentation. -/
def text (width : Nat) (o : Outline) : List Char := Rows.text (o.rows width)

/-- Are the tokens of each line apart, and has each block a line? -/
def Proper : Outline → Prop
  | .done => True
  | .line r rest => r.Apart ∧ rest.Proper
  | .block r _ body rest => r.Apart ∧ body ≠ .done ∧ body.Proper ∧ rest.Proper

/-- Where the first token of the outline stands, or what is behind it if it has no lines. -/
def first (offset width behind : Nat) : Outline → Nat
  | .done => behind
  | _ => offset + width

/-- The tokens of the outline with their marks, if it is written from the offset on and the first token
behind it stands at `behind`. -/
def tokens (behind offset width : Nat) : Outline → List Lexeme
  | .done => []
  | .line r rest =>
    r.place offset width ++ mark .newline (r.feed offset width) ::
      rest.tokens behind (offset + byteLength (r.line width)) width
  | .block r deeper body rest =>
    let inner := width + deeper + 1
    let start := offset + byteLength (r.line width)
    let stop := start + byteLength (body.text inner)
    let closing := rest.first stop width behind
    r.place offset width ++ mark .newline (r.feed offset width) ::
      mark .indent ⟨start + inner, start + inner⟩ :: (body.tokens closing start inner ++
        mark .dedent ⟨closing, closing⟩ :: rest.tokens behind stop width)

@[simp] theorem text_line (width : Nat) (r : Row) (rest : Outline) :
    text width (.line r rest) = r.line width ++ rest.text width := rfl

@[simp] theorem text_block (width deeper : Nat) (r : Row) (body rest : Outline) :
    text width (.block r deeper body rest) =
      r.line width ++ (body.text (width + deeper + 1) ++ rest.text width) := by
  rw [text, rows, Rows.text_cons, Rows.text_append]
  rfl

theorem Proper.apart {o : Outline} (h : o.Proper) (width : Nat) : ∀ row ∈ o.rows width, row.2.Apart := by
  induction o generalizing width with
  | done => simp [rows]
  | line r rest ih => exact List.forall_mem_cons.mpr ⟨h.1, ih h.2 width⟩
  | block r deeper body rest ihbody ih =>
    obtain ⟨hr, -, hbody, hrest⟩ := h
    exact List.forall_mem_cons.mpr ⟨hr, List.forall_mem_append.mpr ⟨ihbody hbody _, ih hrest width⟩⟩

theorem head?_rows {o : Outline} (h : o ≠ .done) (width : Nat) (more : Rows) :
    ∃ row ∈ (o.rows width ++ more).head?, row.1 = width := by
  cases o with
  | done => exact absurd rfl h
  | line r rest => exact ⟨(width, r), rfl, rfl⟩
  | block r deeper body rest => exact ⟨(width, r), rfl, rfl⟩

theorem head?_rows_le {o : Outline} {width : Nat} {more : Rows} (h : ∀ row ∈ more.head?, row.1 ≤ width) :
    ∀ row ∈ (o.rows width ++ more).head?, row.1 ≤ width := by
  cases o with
  | done => exact h
  | line r rest =>
    rintro row ⟨⟩
    exact Nat.le_refl _
  | block r deeper body rest =>
    rintro row ⟨⟩
    exact Nat.le_refl _

theorem first_rows (o : Outline) (offset width behind : Nat) (more : Rows) :
    Rows.first offset behind (o.rows width ++ more) =
      o.first offset width (Rows.first (offset + byteLength (o.text width)) behind more) := by
  cases o <;> rfl

/-- The lines of an outline are laid out with the marks of the outline, whatever lines stand behind it. -/
theorem layOut_rows {source : List Char} {tab : Nat} {o : Outline} (h : o.Proper) {levels : List Nat}
    {offset width : Nat} {more : Rows} (hmore : ∀ row ∈ more, row.2.Apart)
    (hline : ⟨offset, Rows.text (o.rows width ++ more)⟩ ∈ (LineIndex.ofSource source).lines)
    (hlevels : levels.headD 0 = width) (hwidth : ∀ row ∈ more.head?, row.1 ≤ width) :
    layOut (LineIndex.ofSource source) tab levels (Rows.lines offset (o.rows width ++ more)) =
      o.tokens (Rows.first (offset + byteLength (o.text width)) (byteLength source) more) offset width ++
        layOut (LineIndex.ofSource source) tab levels (Rows.lines (offset + byteLength (o.text width)) more) := by
  -- the lines behind the outline are kept as `more`: behind the body of a block stand the rest and they
  induction o generalizing levels offset width more with
  | done => rfl
  | line r rest ih =>
    obtain ⟨hr, hrest⟩ := h
    have hnext := mem_lines_line hline
    rw [rows, List.cons_append, Rows.lines, layOut_line hr hline, enterLine_same hlevels,
      ih hrest hmore hnext hlevels hwidth, text_line, byteLength_append, ← Nat.add_assoc, tokens]
    simp only [List.nil_append, List.append_assoc, List.cons_append]
  | block r deeper body rest ihbody ih =>
    obtain ⟨hr, hne, hbody, hrest⟩ := h
    have hdeeper : levels.headD 0 < width + deeper + 1 := by omega
    have hbehind : ∀ row ∈ rest.rows width ++ more, row.2.Apart :=
      List.forall_mem_append.mpr ⟨hrest.apart width, hmore⟩
    have hle : ∀ row ∈ (rest.rows width ++ more).head?, row.1 ≤ width := head?_rows_le hwidth
    have hinner : ∀ row ∈ (rest.rows width ++ more).head?, row.1 ≤ width + deeper + 1 :=
      fun row hrow => Nat.le_trans (hle row hrow) (by omega)
    have hall : ∀ row ∈ body.rows (width + deeper + 1) ++ (rest.rows width ++ more), row.2.Apart :=
      List.forall_mem_append.mpr ⟨hbody.apart _, hbehind⟩
    rw [rows, List.cons_append, List.append_assoc] at hline ⊢
    have hstart := mem_lines_line hline
    have hstop : ⟨offset + byteLength (r.line width) + byteLength (body.text (width + deeper + 1)),
        Rows.text (rest.rows width ++ more)⟩ ∈ (LineIndex.ofSource source).lines := by
      refine mem_lines_rows ?_
      rw [← Rows.text_append]
      exact hstart
    rw [Rows.lines, layOut_line hr hline, enterLine_same hlevels,
      layOut_opening hall hstart hdeeper (head?_rows hne _ _), ihbody hbody hbehind hstart rfl hinner,
      layOut_closing hbehind (fun _ => hstop) hdeeper (by rwa [hlevels]), ih hrest hmore hstop hlevels hwidth,
      first_rows, text_block, byteLength_append, byteLength_append, tokens]
    simp only [List.nil_append, List.append_assoc, List.cons_append, Nat.add_assoc]

/-- The tokens of a source that was written as an outline are those of the outline. -/
theorem tokens_source {o : Outline} (h : o.Proper) {s : Source} (hs : s.text = o.text 0) (tabWidth : Nat) :
    Token.tokens s tabWidth = o.tokens s.length 0 0 := by
  have hindex : s.index = LineIndex.ofSource (o.text 0) := hs ▸ s.index_eq
  have hfirst : ⟨0, Rows.text (o.rows 0 ++ [])⟩ ∈ (LineIndex.ofSource (o.text 0)).lines := by
    rw [List.append_nil]
    exact LineIndex.mem_lines.mpr (.inl rfl)
  have hlaid := @layOut_rows _ (max tabWidth 1) o h [] 0 0 [] (List.forall_mem_nil _) hfirst rfl (by simp)
  rw [List.append_nil] at hlaid
  rw [Token.tokens, hs, hindex, text, Rows.splitLines_lexemes (h.apart 0), ← text, hlaid, Source.length, hindex]
  simp [Rows.first, Rows.lines, layOut, LineIndex.ofSource]

end Outline

end BranchingStory.Token
