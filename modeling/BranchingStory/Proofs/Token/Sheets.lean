import BranchingStory.Proofs.Token.Margins
import BranchingStory.Proofs.Token.Outlines

/-! # Sheets

A sheet is a text line by line, each line with its indentation and with the tokens that are scanned from it, if it has
any. The layout pass puts its marks between the lines as their indentations call for it. -/

namespace BranchingStory.Token
open Text
set_option autoImplicit false

/-- A line: so many spaces, and a text with its tokens if the text stands at an offset. -/
structure Strip where
  width : Nat
  text : List Char
  place : Nat → List Lexeme

namespace Strip

def line (x : Strip) : List Char := List.replicate x.width ' ' ++ (x.text ++ ['\n'])

def blank : Strip := ⟨0, [], fun _ => []⟩

def ofRow (width : Nat) (r : Row) : Strip := ⟨width, r.text 0, fun offset => r.place offset 0⟩

/-- Is the text behind the indentation scanned as these tokens, the first of which stands at the front of it? -/
structure Sound (x : Strip) : Prop where
  solid : ∀ c ∈ x.text.head?, isSkippable c = false
  lexemes_eq : ∀ offset behind, lexemes offset (x.text ++ '\n' :: behind) =
    x.place offset ++ lexemes (offset + byteLength x.text) ('\n' :: behind)
  proper : ∀ offset, ∀ t ∈ x.place offset, t.node.isLayout = false
  start_eq : ∀ offset, ∀ t ∈ (x.place offset).head?, t.span.start = offset

theorem sound_blank : blank.Sound where
  solid := by simp [blank]
  lexemes_eq _ _ := rfl
  proper := by simp [blank]
  start_eq := by simp [blank]

theorem sound_ofRow {r : Row} (h : r.Apart) (width : Nat) : (ofRow width r).Sound where
  solid := by
    obtain ⟨c, rest, hline, hc⟩ := r.exists_line_eq h 0
    rintro d hd
    cases htext : r.text 0 with
    | nil => simp [ofRow, htext] at hd
    | cons e text =>
      obtain rfl : e = d := by simpa [ofRow, htext] using hd
      rw [Row.line, htext] at hline
      obtain ⟨rfl, -⟩ := List.cons.inj hline
      exact hc
  lexemes_eq _ behind := Cell.lexemes_text (r.apart_cells h 0) ('\n' :: behind) (by simp)
  proper _ := Row.isLayout_place h
  start_eq _ := by
    rintro t ⟨⟩
    rfl

end Strip

/-- The lines of a sheet laid out from an offset on; `close` gives what comes behind them, by the levels that are
open there and by the offset. -/
def layStrips (close : List Nat → Nat → List Lexeme) (levels : List Nat) (offset : Nat) : List Strip → List Lexeme
  | [] => close levels offset
  | x :: xs =>
    let first := offset + x.width
    let stop := first + byteLength x.text
    match x.place first with
    | [] => mark .blankLine ⟨stop, stop + 1⟩ :: layStrips close levels (stop + 1) xs
    | t :: ts =>
      let entered := enterLine levels x.width offset first
      entered.1 ++ (t :: ts ++ mark .newline ⟨stop, stop + 1⟩ :: layStrips close entered.2 (stop + 1) xs)

/-! ## Line by line -/

section Lines
variable {close : List Nat → Nat → List Lexeme} {levels : List Nat} {offset : Nat} {x : Strip} {xs : List Strip}

theorem Strip.byteLength_line (x : Strip) : byteLength x.line = x.width + byteLength x.text + 1 := by
  rw [line, byteLength_append, byteLength_append, byteLength_blanks, Nat.add_assoc]
  rfl

/-- The line feed at the end of a line that begins at the offset. -/
def Strip.feed (x : Strip) (offset : Nat) : Span := ⟨offset + byteLength x.line - 1, offset + byteLength x.line⟩

/-- Does a line that begins at the offset have a token? -/
def Strip.HasWords (x : Strip) (offset : Nat) : Prop := x.place (offset + x.width) ≠ []

theorem layStrips_blank : layStrips close levels offset (.blank :: xs) =
    mark .blankLine ⟨offset, offset + 1⟩ :: layStrips close levels (offset + 1) xs := rfl

theorem layStrips_cons (h : x.HasWords offset) : layStrips close levels offset (x :: xs) =
    (enterLine levels x.width offset (offset + x.width)).1 ++ (x.place (offset + x.width) ++ mark .newline (x.feed offset) ::
      layStrips close (enterLine levels x.width offset (offset + x.width)).2 (offset + byteLength x.line) xs) := by
  obtain ⟨t, ts, hplace⟩ := List.exists_cons_of_ne_nil h
  rw [layStrips, hplace, Strip.feed, x.byteLength_line, ← Nat.add_assoc, ← Nat.add_assoc]
  rfl

theorem layStrips_same (h : x.HasWords offset) (hwidth : levels.headD 0 = x.width) :
    layStrips close levels offset (x :: xs) = x.place (offset + x.width) ++ mark .newline (x.feed offset) ::
      layStrips close levels (offset + byteLength x.line) xs := by
  rw [layStrips_cons h, enterLine_same hwidth]
  rfl

theorem layStrips_opening (h : x.HasWords offset) (hdeeper : levels.headD 0 < x.width) :
    layStrips close levels offset (x :: xs) = mark .indent ⟨offset + x.width, offset + x.width⟩ ::
      layStrips close (x.width :: levels) offset (x :: xs) := by
  have hsame : (x.width :: levels).headD 0 = x.width := rfl
  rw [layStrips_cons h, layStrips_cons h, enterLine_deeper hdeeper, enterLine_same hsame]
  rfl

theorem layStrips_closing {level : Nat} (h : x.HasWords offset) (hlevel : levels.headD 0 < level)
    (hwidth : x.width ≤ levels.headD 0) : layStrips close (level :: levels) offset (x :: xs) =
      mark .dedent ⟨offset + x.width, offset + x.width⟩ :: layStrips close levels offset (x :: xs) := by
  rw [layStrips_cons h, layStrips_cons h, enterLine_closing (Nat.lt_of_le_of_lt hwidth hlevel) hwidth]
  rfl

end Lines

/-! ## The layout of a sheet -/

section Sheet
variable {x : Strip} {xs : List Strip} {before behind : List Char} {tab eof : Nat} {levels : List Nat}

theorem Strip.lastLine_line (x : Strip) (before : List Char) : lastLine (before ++ x.line) = [] := by
  rw [line, ← List.append_assoc, ← List.append_assoc, lastLine_append_of_mem (List.mem_singleton_self _)]
  rfl

/-- A line is scanned as its tokens and a line feed. -/
theorem Strip.Sound.lexemes_line (h : x.Sound) (offset : Nat) (behind : List Char) :
    lexemes offset (x.line ++ behind) =
      x.place (offset + x.width) ++ mark .newline
        ⟨offset + x.width + byteLength x.text, offset + x.width + byteLength x.text + 1⟩ ::
        lexemes (offset + byteLength x.line) behind := by
  have hhead : ∀ c ∈ (x.text ++ '\n' :: behind).head?, isSkippable c = false := by
    have hsolid := h.solid
    cases htext : x.text with
    | nil =>
      rintro c ⟨⟩
      rfl
    | cons c text => rwa [htext] at hsolid
  rw [line, List.append_assoc, List.append_assoc, List.singleton_append, lexemes_blanks hhead, h.lexemes_eq,
    lexemes_lineFeed, ← line, byteLength_line, ← Nat.add_assoc, ← Nat.add_assoc]
  rfl

/-- Where a line begins with a token, its width is that of its indentation. -/
theorem Strip.Sound.exists_char {t : Lexeme} {ts : List Lexeme} {offset : Nat} (h : x.Sound)
    (hplace : x.place offset = t :: ts) : ∃ c rest, x.text = c :: rest ∧ isSkippable c = false ∧
      t.span.start = offset := by
  have hstart := h.start_eq offset t (by rw [hplace]; rfl)
  cases htext : x.text with
  | nil =>
    have hscanned := h.lexemes_eq offset []
    rw [htext, hplace] at hscanned
    have hlength := congrArg List.length hscanned
    rw [List.length_append, List.length_cons, List.nil_append] at hlength
    exact absurd hlength (by simp)
  | cons c rest => exact ⟨c, rest, rfl, h.solid c (by rw [htext]; rfl), hstart⟩

/-- A sheet in a text is laid out line by line. -/
theorem layOut_strips (hbefore : lastLine before = []) (hxs : ∀ x ∈ xs, x.Sound) :
    layOut (LineIndex.ofSource (before ++ (xs.flatMap Strip.line ++ behind))) tab levels
        (splitLines eof (lexemes (byteLength before) (xs.flatMap Strip.line ++ behind))) =
      layStrips (fun levels offset => layOut (LineIndex.ofSource (before ++ (xs.flatMap Strip.line ++ behind))) tab
        levels (splitLines eof (lexemes offset behind))) levels (byteLength before) xs := by
  induction xs generalizing before levels with
  | nil => rfl
  | cons x xs ih =>
    obtain ⟨hx, hxs⟩ := List.forall_mem_cons.mp hxs
    have hnext := fun levels => @ih (before ++ x.line) levels (x.lastLine_line before) hxs
    have hsplit : (x :: xs).flatMap Strip.line ++ behind = x.line ++ (xs.flatMap Strip.line ++ behind) := by
      rw [List.flatMap_cons, List.append_assoc]
    have hlength : byteLength (before ++ x.line) = byteLength before + x.width + byteLength x.text + 1 := by
      rw [byteLength_append, x.byteLength_line, ← Nat.add_assoc, ← Nat.add_assoc]
    rw [hsplit, ← List.append_assoc, hx.lexemes_line, ← byteLength_append, Rows.splitLines_append (hx.proper _),
      layStrips, layOut]
    dsimp only
    cases hplace : x.place (byteLength before + x.width) with
    | nil =>
      dsimp only
      rw [hnext, hlength]
    | cons t ts =>
      obtain ⟨c, rest, htext, hc, hstart⟩ := hx.exists_char hplace
      have hspaces : byteLength before + x.width = byteLength (before ++ List.replicate x.width ' ') := by
        rw [byteLength_append, byteLength_blanks]
      have hwhole : before ++ x.line ++ (xs.flatMap Strip.line ++ behind) =
          (before ++ List.replicate x.width ' ') ++ c :: (rest ++ '\n' :: (xs.flatMap Strip.line ++ behind)) := by
        simp [Strip.line, htext]
      have hnofeed : '\n' ∉ List.replicate x.width ' ' := fun hmem =>
        absurd (List.eq_of_mem_replicate hmem) (by decide)
      have hlast : lastLine (before ++ List.replicate x.width ' ') = List.replicate x.width ' ' := by
        rw [lastLine_append_of_not_mem hnofeed, hbefore, List.nil_append]
      have hline : (LineIndex.ofSource (before ++ x.line ++ (xs.flatMap Strip.line ++ behind))).lineAt
          (byteLength before + x.width) = ⟨byteLength before, List.replicate x.width ' ' ++
            c :: (rest ++ '\n' :: (xs.flatMap Strip.line ++ behind))⟩ := by
        rw [hwhole, hspaces, lineAt_eq, hlast, byteLength_append, Nat.add_sub_cancel]
      dsimp only
      rw [hstart, hline, indentWidth_blanks hc, Nat.zero_add, hnext, hlength, List.append_assoc]

/-- The tokens of a source that is a sheet: at the end all levels are closed. -/
theorem tokens_sheet {s : Source} (hxs : ∀ x ∈ xs, x.Sound) (hs : s.text = xs.flatMap Strip.line) (tabWidth : Nat) :
    tokens s tabWidth = layStrips (fun levels _ => levels.map fun _ => mark .dedent ⟨s.length, s.length⟩) [] 0 xs := by
  have hlaid := @layOut_strips xs [] [] (max tabWidth 1) s.length [] rfl hxs
  rw [List.append_nil, List.nil_append, ← hs, ← s.index_eq, byteLength_nil] at hlaid
  rw [tokens, hlaid]
  refine congrArg (layStrips · [] 0 xs) (funext fun levels => funext fun offset => ?_)
  rw [lexemes]
  rfl

end Sheet

end BranchingStory.Token
