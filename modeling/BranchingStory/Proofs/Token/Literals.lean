import BranchingStory.Proofs.Source.Excerpts
import BranchingStory.Proofs.Token.Margins
import BranchingStory.Proofs.Token.Outlines

/-! # String literals

Texts that are written as literals with a blank between them are lexed as those texts, each of them at the place of
its literal: a literal ends at its own closing quote, whatever is written inside, and resolving undoes escaping. -/

namespace BranchingStory.Token
open Text
set_option autoImplicit false

/-! ## A line that ends with its source -/

theorem splitLines_words (eof : Nat) {words : List Lexeme} (hne : words ≠ [])
    (h : ∀ t ∈ words, t.node.isLayout = false) : splitLines eof words = [⟨words, ⟨eof, eof⟩⟩] := by
  induction words with
  | nil => exact absurd rfl hne
  | cons t words ih =>
    obtain ⟨ht, hwords⟩ := List.forall_mem_cons.mp h
    rw [splitLines, if_neg (by simp [isNewline_eq_false ht])]
    cases words with
    | nil => rfl
    | cons u words => rw [ih (by simp) hwords]

theorem Row.lexemes_text {r : Row} (hr : r.Apart) : lexemes 0 (r.text 0) = r.place 0 0 := by
  have hscan : lexemes 0 (r.text 0 ++ []) = r.place 0 0 ++ lexemes (0 + byteLength (r.text 0)) [] :=
    Cell.lexemes_text (r.apart_cells hr 0) [] (by simp)
  rwa [List.append_nil, lexemes, List.append_nil] at hscan

/-- A source of a single row has the tokens of the row and a mark behind them, where the source ends. -/
theorem tokens_row {s : Source} {r : Row} (hr : r.Apart) (hs : s.text = r.text 0) (tabWidth : Nat) :
    tokens s tabWidth = r.place 0 0 ++ [mark .newline ⟨s.length, s.length⟩] := by
  obtain ⟨c, rest, htext, hsolid⟩ : ∃ c rest, s.text = c :: rest ∧ isSkippable c = false := by
    obtain ⟨c, rest, hspell, hsolid, -⟩ := scan_spell hr.1 (Cell.endsBefore_text hr [] (by simp))
    refine ⟨c, rest ++ Cell.text r.more, ?_, hsolid⟩
    rw [hs, Row.text, Row.cells, Cell.text_cons, hspell]
    rfl
  have hmargin : indentWidth (max tabWidth 1) 0 (s.index.lineAt 0).text = 0 := by
    have hfront := indentWidth_lineAt hsolid (max tabWidth 1) [] rest
    rwa [List.nil_append, ← htext, ← s.index_eq] at hfront
  have hlines : splitLines s.length (lexemes 0 s.text) = [⟨r.place 0 0, ⟨s.length, s.length⟩⟩] := by
    rw [hs, Row.lexemes_text hr]
    exact splitLines_words s.length (by simp [Row.place_eq]) (Row.isLayout_place hr)
  have henter (start first : Nat) : enterLine [] 0 start first = ([], []) := enterLine_same rfl
  rw [tokens, hlines, Row.place_eq, layOut]
  dsimp only
  rw [hmargin, henter]
  rfl

/-! ## Literals with a blank between them -/

/-- The literal of a text. -/
def quoted (text : String) : List Char := '"' :: (escape text.toList ++ ['"'])

/-- The literals of some texts, a single blank between each two of them. -/
def literals (texts : List String) : List Char := [' '].intercalate (texts.map quoted)

/-- The texts as tokens, each of which spans its literal, if the first literal begins at the offset. -/
def placeLiterals (offset : Nat) : List String → List Lexeme
  | [] => []
  | text :: rest =>
    let stop := offset + byteLength (quoted text)
    ⟨.string text, ⟨offset, stop⟩⟩ :: placeLiterals (stop + 1) rest

theorem literals_cons_cons (first second : String) (more : List String) :
    literals (first :: second :: more) = quoted first ++ ([' '] ++ literals (second :: more)) := by
  simp [literals]

theorem literals_cons (first : String) (more : List String) :
    literals (first :: more) = quoted first ++ more.flatMap fun text => ' ' :: quoted text := by
  induction more generalizing first with
  | nil => simp [literals]
  | cons second more ih => rw [literals_cons_cons, ih, List.flatMap_cons, List.singleton_append, List.cons_append]

/-! ### Their row -/

def literalRow (first : String) (more : List String) : Row := ⟨.string first, more.map fun text => (1, .string text)⟩

theorem text_literalRow (first : String) (more : List String) :
    (literalRow first more).text 0 = literals (first :: more) := by
  rw [literals_cons]
  simp [Row.text, Row.cells, literalRow, Cell.text, spell, quoted, List.flatMap_map]

theorem place_literals (texts : List String) (offset : Nat) :
    Cell.place offset (texts.map fun text => (1, .string text)) = placeLiterals (offset + 1) texts := by
  induction texts generalizing offset with
  | nil => rfl
  | cons text texts ih =>
    rw [List.map_cons, Cell.place, ih]
    rfl

theorem place_literalRow (first : String) (more : List String) :
    (literalRow first more).place 0 0 = placeLiterals 0 (first :: more) := by
  rw [Row.place_eq, literalRow, place_literals]
  rfl

theorem apart_literals {texts : List String} (h : ∀ text ∈ texts, '\r' ∉ text.toList) :
    Cell.Apart (texts.map fun text => (1, .string text)) := by
  induction texts with
  | nil => trivial
  | cons text texts ih =>
    obtain ⟨htext, htexts⟩ := List.forall_mem_cons.mp h
    exact ⟨htext, by simp, ih htexts⟩

theorem apart_literalRow {first : String} {more : List String} (h : ∀ text ∈ first :: more, '\r' ∉ text.toList) :
    (literalRow first more).Apart := by
  obtain ⟨hfirst, hmore⟩ := List.forall_mem_cons.mp h
  exact ⟨hfirst, by simp [literalRow], apart_literals hmore⟩

/-! ### Their places -/

/-- In the source a literal stands where its token says. -/
theorem slices_placeLiterals {s : Source} {offset : Nat} {texts : List String} (h : s.Holds offset (literals texts)) :
    (placeLiterals offset texts).map (fun t => s.slice? t.span) = texts.map fun text => some (quoted text) := by
  induction texts generalizing offset with
  | nil => rfl
  | cons first more ih =>
    have hfirst : s.Holds offset (quoted first) := by
      rw [literals_cons] at h
      exact h.front
    have hmore : (placeLiterals (offset + byteLength (quoted first) + 1) more).map (fun t => s.slice? t.span) =
        more.map fun text => some (quoted text) := by
      cases more with
      | nil => rfl
      | cons second more =>
        rw [literals_cons_cons] at h
        exact ih h.rest.rest
    rw [placeLiterals, List.map_cons, List.map_cons, hfirst.slice?_eq, hmore]

/-- Literals of texts without a carriage return, for which there is no escape, are lexed as these texts: each token
spans its own literal, and one mark ends the line. -/
theorem tokens_literals {texts : List String} (hne : texts ≠ []) (h : ∀ text ∈ texts, '\r' ∉ text.toList)
    {s : Source} (hs : s.text = literals texts) (tabWidth : Nat) :
    tokens s tabWidth = placeLiterals 0 texts ++ [mark .newline ⟨s.length, s.length⟩] ∧
      (placeLiterals 0 texts).map (fun t => s.slice? t.span) = texts.map fun text => some (quoted text) := by
  obtain ⟨first, more, rfl⟩ := List.exists_cons_of_ne_nil hne
  refine ⟨?_, slices_placeLiterals ⟨[], [], by rw [hs, List.append_nil, List.nil_append], rfl⟩⟩
  rw [← place_literalRow]
  exact tokens_row (apart_literalRow h) (hs.trans (text_literalRow first more).symm) tabWidth

/-- A comment opener with a quote, nothing at all, every escape, and letters of several bytes beside a keyword. -/
def murmurs : List String := ["// \"no\" /*", "", "\\\"\n\t\\", "scene: 夜"]

theorem tokens_literals_murmurs :
    murmurs ≠ [] ∧ (∀ text ∈ murmurs, '\r' ∉ text.toList) ∧
      String.ofList (literals murmurs) = "\"// \\\"no\\\" /*\" \"\" \"\\\\\\\"\\n\\t\\\\\" \"scene: 夜\"" ∧
      tokens { text := literals murmurs } 8 =
        [⟨.string "// \"no\" /*", ⟨0, 14⟩⟩, ⟨.string "", ⟨15, 17⟩⟩, ⟨.string "\\\"\n\t\\", ⟨18, 30⟩⟩,
          ⟨.string "scene: 夜", ⟨31, 43⟩⟩, mark .newline ⟨43, 43⟩] := by
  refine ⟨by decide, by decide, by decide +kernel, ?_⟩
  rw [(tokens_literals (by decide) (by decide) rfl 8).1]
  decide +kernel

end BranchingStory.Token
