import BranchingStory.Proofs.Document.Manuscripts
import BranchingStory.Proofs.Draft.Formulas

/-! # Outlines as passages

An outline whose lines are lines of the grammar is a passage of the grammar. Its statements have the spans of
the text that they were written as. -/

namespace BranchingStory
open Text Token Grammar
set_option autoImplicit false

/-! ## Spans -/

/-- Does the last of the tokens that is no layout mark end here? -/
def Ends (ts : List Lexeme) (stop : Nat) : Prop := proper ts ≠ [] ∧ (spanOf (proper ts)).stop = stop

namespace Ends
variable {ts us : List Lexeme} {t : Lexeme} {stop : Nat}

theorem append (h : Ends us stop) (ts : List Lexeme) : Ends (ts ++ us) stop := by
  obtain ⟨hne, hstop⟩ := h
  rw [Ends, proper_append]
  refine ⟨List.append_ne_nil_of_right_ne_nil _ hne, ?_⟩
  by_cases hts : proper ts = []
  · rw [hts, List.nil_append, hstop]
  · rw [Expr.spanOf_append hts hne, hstop]

theorem cons (h : Ends us stop) (t : Lexeme) : Ends (t :: us) stop := h.append [t]

theorem marks (h : Ends ts stop) (hmarks : ∀ t ∈ us, t.node.isLayout = true) : Ends (ts ++ us) stop := by
  rwa [Ends, proper_append, proper_of_marks hmarks, List.append_nil]

end Ends

namespace Token
variable {offset width behind : Nat}

theorem spanOf_row (r : Row) (offset width : Nat) :
    spanOf (r.place offset width) = ⟨offset + width, offset + byteLength (r.line width) - 1⟩ := by
  rw [Row.place, Row.cells, spanOf_place, Row.byteLength_line]
  rfl

theorem ends_row {r : Row} (h : r.Apart) : Ends (r.place offset width) (offset + byteLength (r.line width) - 1) := by
  rw [Ends, proper_of_words (Row.isLayout_place h), spanOf_row]
  exact ⟨List.cons_ne_nil _ _, rfl⟩

namespace Outline

theorem width_lt {o : Outline} (h : o ≠ .done) (width : Nat) : width < byteLength (o.text width) := by
  have hrow (r : Row) : width < byteLength (r.line width) := by
    rw [Row.byteLength_line, Row.text, Row.cells, Cell.byteLength_text_cons]
    omega
  cases o with
  | done => exact absurd rfl h
  | line r rest =>
    rw [text_line, byteLength_append]
    exact Nat.lt_add_right _ (hrow r)
  | block r deeper body rest =>
    rw [text_block, byteLength_append]
    exact Nat.lt_add_right _ (hrow r)

/-- The last token of an outline ends in front of the last line feed. -/
theorem ends_tokens {o : Outline} (h : o.Proper) (hne : o ≠ .done) :
    Ends (o.tokens behind offset width) (offset + byteLength (o.text width) - 1) := by
  induction o generalizing behind offset width with
  | done => exact absurd rfl hne
  | line r rest ih =>
    obtain ⟨hr, hrest⟩ := h
    rw [text_line, byteLength_append, ← Nat.add_assoc, tokens]
    by_cases hdone : rest = .done
    · subst hdone
      exact (ends_row hr).marks (by simp [tokens, mark, isLayout])
    · exact ((ih hrest hdone).cons _).append _
  | block r deeper body rest ihbody ih =>
    obtain ⟨hr, hbody, hproper, hrest⟩ := h
    rw [text_block, byteLength_append, byteLength_append, ← Nat.add_assoc, ← Nat.add_assoc, tokens]
    by_cases hdone : rest = .done
    · subst hdone
      exact ((((ihbody hproper hbody).marks (by simp [tokens, mark, isLayout])).cons _).cons _).append _
    · exact (((((ih hrest hdone).cons _).append _).cons _).cons _).append _

end Outline

end Token

/-! ## Excerpts -/

namespace Token

theorem Rows.exists_lineFeed (rows : Rows) : rows.text = [] ∨ ∃ front, rows.text = front ++ ['\n'] := by
  induction rows with
  | nil => exact .inl rfl
  | cons row rows ih =>
    obtain ⟨width, r⟩ := row
    rw [text_cons]
    rcases ih with hnone | ⟨front, hfront⟩
    · exact .inr ⟨r.text width, by rw [hnone, List.append_nil, Row.line]⟩
    · exact .inr ⟨r.line width ++ front, by rw [hfront, List.append_assoc]⟩

/-- An outline begins with the indentation of its first line and ends with a line feed. -/
theorem Outline.exists_text_eq {o : Outline} (h : o ≠ .done) (width : Nat) :
    ∃ middle, o.text width = List.replicate width ' ' ++ (middle ++ ['\n']) := by
  have hrow (r : Row) (rows : Rows) :
      ∃ middle, r.line width ++ rows.text = List.replicate width ' ' ++ (middle ++ ['\n']) := by
    rw [Row.line, Row.text, Row.cells, Cell.text_cons]
    rcases rows.exists_lineFeed with hnone | ⟨front, hfront⟩
    · exact ⟨r.first.spell ++ Cell.text r.more, by simp [hnone]⟩
    · exact ⟨r.first.spell ++ Cell.text r.more ++ '\n' :: front, by simp [hfront]⟩
  cases o with
  | done => exact absurd rfl h
  | line r rest => exact hrow r _
  | block r deeper body rest => exact hrow r _

theorem Row.trim_line_ne_nil {r : Row} (h : r.Apart) (width : Nat) (behind : List Char) :
    trim (r.line width ++ behind) ≠ [] := by
  obtain ⟨hne, hhead, -⟩ := trimmed_spell h.1
  obtain ⟨c, rest, hspell⟩ := List.exists_cons_of_ne_nil hne
  have hspell : r.first.spell = c :: rest := hspell
  intro hnil
  have hblank := trim_eq_nil_iff.mp hnil c (by simp [line, text, cells, hspell])
  rw [hhead c (by rw [hspell]; rfl)] at hblank
  exact absurd hblank (by decide)

theorem Outline.trim_text_ne_nil {o : Outline} (h : o.Proper) (hne : o ≠ .done) (width : Nat) :
    trim (o.text width) ≠ [] := by
  cases o with
  | done => exact absurd rfl hne
  | line r rest => exact Row.trim_line_ne_nil h.1 width _
  | block r deeper body rest => exact Row.trim_line_ne_nil h.1 width _

end Token

/-- The excerpt of an outline is its text without the blanks around it. -/
theorem Source.Holds.excerpt_outline {s : Source} {o : Outline} {offset width : Nat}
    (h : s.Holds offset (o.text width)) (hne : o ≠ .done) :
    s.excerpt ⟨offset + width, offset + byteLength (o.text width) - 1⟩ = String.ofList (trim (o.text width)) := by
  obtain ⟨middle, hmiddle⟩ := o.exists_text_eq hne width
  rw [hmiddle] at h ⊢
  have hblanks : ∀ c ∈ List.replicate width ' ', isBlank c = true := fun c hc => List.eq_of_mem_replicate hc ▸ rfl
  have hholds := h.rest.front
  have hstop : offset + byteLength (List.replicate width ' ' ++ (middle ++ ['\n'])) - 1 =
      offset + width + byteLength middle := by
    rw [byteLength_append, byteLength_append, byteLength_blanks]
    exact Nat.add_assoc offset width _ ▸ rfl
  rw [byteLength_blanks] at hholds
  rw [hstop, hholds.excerpt_eq, trim_blanks hblanks, trim_lineFeed]

/-! ## Passages -/

/-- Do the tokens of the outline form a passage with these statements? -/
def Token.Outline.Reads (o : Outline) (context : Context) (behind offset width : Nat) (items : List Statement) :
    Prop :=
  ∃ p : Passage, p.Fits context ∧ p.tokens = o.tokens behind offset width ∧ p.statements = items

namespace Token.Outline.Reads
variable {context inner : Context} {behind offset width : Nat} {r : Row} {rest body : Outline}
  {items inside : List Statement} {header : Header}

theorem done : Outline.done.Reads context behind offset width [] := ⟨.done, trivial, rfl, rfl⟩

theorem line {form : Form} (hline : LineIn context (r.place offset width) (.line form))
    (h : rest.Reads context behind (offset + byteLength (r.line width)) width items) :
    (Outline.line r rest).Reads context behind offset width
      (.line form ⟨offset + width, offset + byteLength (r.line width) - 1⟩ [] :: items) := by
  obtain ⟨p, hp, htokens, rfl⟩ := h
  refine ⟨.line (r.place offset width) (r.feed offset width) form p, ⟨hline, hp⟩, ?_, ?_⟩
  · rw [Passage.tokens, htokens, tokens]
  · rw [Passage.statements, spanOf_row]

theorem bare (hline : LineIn context (r.place offset width) (.bare header))
    (h : rest.Reads context behind (offset + byteLength (r.line width)) width items) :
    (Outline.line r rest).Reads context behind offset width
      (.bare header ⟨offset + width, offset + byteLength (r.line width) - 1⟩ [] :: items) := by
  obtain ⟨p, hp, htokens, rfl⟩ := h
  refine ⟨.bare (r.place offset width) (r.feed offset width) header p, ⟨.inl hline, hp⟩, ?_, ?_⟩
  · rw [Passage.tokens, htokens, tokens]
  · rw [Passage.statements, spanOf_row]

theorem block {required : Bool} {deeper start stop : Nat} (hproper : body.Proper) (hne : body ≠ .done)
    (hstart : offset + byteLength (r.line width) = start)
    (hstop : start + byteLength (body.text (width + deeper + 1)) = stop)
    (hline : LineIn context (r.place offset width) (.opening header inner required))
    (hbody : body.Reads inner (rest.first stop width behind) start (width + deeper + 1) inside)
    (h : rest.Reads context behind stop width items) :
    (Outline.block r deeper body rest).Reads context behind offset width
      (.block header ⟨start + (width + deeper + 1), stop - 1⟩ inside ⟨offset + width, stop - 1⟩ [] :: items) := by
  obtain ⟨p, hp, htokens, rfl⟩ := h
  obtain ⟨q, hq, hinside, rfl⟩ := hbody
  have hplace : r.place offset width ≠ [] := List.cons_ne_nil _ _
  have hends : Ends q.tokens (stop - 1) := by
    rw [hinside, ← hstop]
    exact ends_tokens hproper hne
  have hspan : spanOf (r.place offset width ++ proper q.tokens) = ⟨offset + width, stop - 1⟩ := by
    rw [Expr.spanOf_append hplace hends.1, hends.2, spanOf_row]
  have hwidth := width_lt hne (width + deeper + 1)
  refine ⟨.block (r.place offset width) (r.feed offset width) header inner []
    ⟨start + (width + deeper + 1), start + (width + deeper + 1)⟩ q
    ⟨rest.first stop width behind, rest.first stop width behind⟩ p, ⟨⟨required, hline⟩, hq, hp⟩, ?_, ?_⟩
  · rw [Passage.tokens, htokens, hinside, tokens, hstart, hstop]
    rfl
  · rw [Passage.statements, hspan]
    dsimp only
    rw [Nat.max_eq_left (by omega)]

end Token.Outline.Reads

end BranchingStory
