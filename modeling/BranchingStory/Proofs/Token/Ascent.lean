import BranchingStory.Proofs.Token.BlankLines

/-! # In which order tokens begin

The marks in front of a line begin where its first token does, and the mark of a wrong indentation, which stands
behind those that close a level, begins in front of them with the line. Hence the marks that close a level are the
only tokens behind which something may begin earlier. -/

namespace BranchingStory.Token
open Text
set_option autoImplicit false

/-- Does no token but a mark that closes a level begin behind one that comes after it? -/
def Ascending (ts : List Lexeme) : Prop :=
  ts.Pairwise fun t u => t.node ≠ .layout .dedent → t.span.start ≤ u.span.start

theorem Ascending.of_suffix {ts us : List Lexeme} (h : Ascending ts) (hsuffix : us <:+ ts) : Ascending us :=
  h.sublist hsuffix.sublist

theorem Ascending.le_of_cons {t : Lexeme} {rest : List Lexeme} (h : Ascending (t :: rest))
    (ht : t.node ≠ .layout .dedent) : ∀ u ∈ t :: rest, t.span.start ≤ u.span.start :=
  List.forall_mem_cons.mpr ⟨Nat.le_refl _, fun _ hu => List.rel_of_pairwise_cons h hu ht⟩

theorem ascending_dedents (levels : List Nat) (span : Span) {rest : List Lexeme} (h : Ascending rest) :
    Ascending ((levels.map fun _ => mark .dedent span) ++ rest) := by
  induction levels with
  | nil => exact h
  | cons level levels ih => exact List.pairwise_cons.mpr ⟨fun u _ hdedent => absurd rfl hdedent, ih⟩

theorem ascending_enterLine (levels : List Nat) (width : Nat) {start first : Nat} {rest : List Lexeme}
    (hle : start ≤ first) (hfirst : ∀ t ∈ rest, first ≤ t.span.start) (h : Ascending rest) :
    Ascending ((enterLine levels width start first).1 ++ rest) := by
  rw [enterLine]
  split
  · exact List.pairwise_cons.mpr ⟨fun u hu _ => hfirst u hu, h⟩
  · dsimp only
    split
    · exact ascending_dedents _ _ h
    · rw [List.append_assoc]
      refine ascending_dedents _ _ (List.pairwise_cons.mpr ⟨fun u hu _ => ?_, h⟩)
      exact Nat.le_trans hle (hfirst u hu)

theorem Chained.ascending {text : List Char} {limit offset : Nat} {content rest : List Lexeme}
    (h : Chained text limit offset content) (hlimit : ∀ t ∈ rest, limit ≤ t.span.start) (hrest : Ascending rest) :
    Ascending (content ++ rest) := by
  induction content generalizing offset with
  | nil => exact hrest
  | cons t content ih =>
    obtain ⟨-, hlt, hstop⟩ := h.bounds t List.mem_cons_self
    obtain ⟨-, -, -, -, -, hcontent⟩ := h
    refine List.pairwise_cons.mpr ⟨fun u hu _ => ?_, ih hcontent⟩
    obtain hu | hu := List.mem_append.mp hu
    · have := (hcontent.bounds u hu).1
      omega
    · have := hlimit u hu
      omega

theorem ascending_layOut {text : List Char} (tab : Nat) {offset : Nat} {levels : List Nat} {lines : List TokenLine}
    (h : LinesChained text offset lines) (hoffset : IsBoundary text offset)
    (hline : lines ≠ [] → IsLineStart text offset) :
    Ascending (layOut (LineIndex.ofSource text) tab levels lines) := by
  induction lines generalizing offset levels with
  | nil =>
    have hdedents := ascending_dedents levels ⟨byteLength text, byteLength text⟩ List.Pairwise.nil
    rwa [List.append_nil] at hdedents
  | cons line lines ih =>
    obtain ⟨hproper, hchained, hordered, hstart, hstop, hnext, hlines⟩ := h
    -- What is laid out behind the line begins where the line has ended, or later.
    have hbehind : ∀ levels, ∀ t ∈ layOut (LineIndex.ofSource text) tab levels lines,
        line.newline.start ≤ t.span.start := fun levels t ht =>
      Nat.le_trans hordered ((laid_layOut tab hlines hstop hnext (Nat.le_refl _)).low_le t ht)
    have hend : ∀ levels, Ascending (mark .newline line.newline :: layOut (LineIndex.ofSource text) tab levels lines) :=
      fun levels => List.pairwise_cons.mpr ⟨fun t ht _ => hbehind levels t ht, ih hlines hstop hnext⟩
    rw [layOut]
    split
    · exact List.pairwise_cons.mpr ⟨fun t ht _ => hbehind levels t ht, ih hlines hstop hnext⟩
    · next first others hcontent =>
      dsimp only
      rw [List.append_assoc]
      rw [hcontent] at hchained hproper ⊢
      have hfirst : first.node ≠ .layout .dedent := ne_layout (hproper first List.mem_cons_self) .dedent
      have hwhole : ∀ levels, Ascending (first :: others ++ mark .newline line.newline ::
          layOut (LineIndex.ofSource text) tab levels lines) := fun levels =>
        hchained.ascending (List.forall_mem_cons.mpr ⟨Nat.le_refl _, hbehind levels⟩) (hend levels)
      exact ascending_enterLine levels _ (LineIndex.lineAt_start_le text first.span.start)
        ((hwhole _).le_of_cons hfirst) (hwhole _)

theorem ascending_tokens (source : Source) (tabWidth : Nat) : Ascending (tokens source tabWidth) := by
  rw [tokens, source.length_eq, source.index_eq]
  exact ascending_layOut _ (linesChained_splitLines (chained_lexemes [] source.text)) (isBoundary_zero _)
    fun _ => isLineStart_zero _

end BranchingStory.Token
