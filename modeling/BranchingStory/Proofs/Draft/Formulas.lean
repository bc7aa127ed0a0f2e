import BranchingStory.Proofs.Document.Respelling
import BranchingStory.Proofs.Draft.Drafts
import BranchingStory.Proofs.Script.Targets
import BranchingStory.Proofs.Token.Pieces

/-! # Reading expressions of a draft

What stands at an offset of a source is the excerpt of its span. No token begins or ends with a blank, so the
excerpt of an expression is the expression as it was written. -/

namespace BranchingStory
open Text Token
set_option autoImplicit false

namespace Source
variable {s : Source} {offset : Nat}

theorem Holds.cell {gap : Nat} {t : Token} {cells : List Cell} (h : s.Holds offset (Cell.text ((gap, t) :: cells))) :
    s.Holds (offset + gap + byteLength t.spell) (Cell.text cells) := by
  rw [Cell.text_cons] at h
  have hrest := h.rest.rest
  rwa [byteLength_blanks] at hrest

end Source

/-! ## Blanks -/

namespace Token

/-- A token that was written neither begins nor ends with a blank. -/
theorem trimmed_spell {t : Token} (h : t.Writable) : Trimmed t.spell := by
  cases t with
  | symbol s => exact (solid_spelling s).toTrimmed
  | string text =>
    refine ⟨List.cons_ne_nil _ _, ?_, ?_⟩
    · rintro c ⟨⟩
      rfl
    · intro c hc
      rw [spell, List.getLast?_cons, List.getLast?_append] at hc
      obtain rfl : '"' = c := by simpa using hc
      rfl
  | number value spelling =>
    obtain ⟨c, digits, hspelling, hc, hscan⟩ := h
    have hmore := congrArg Scan.more hscan
    have hdigits := isDigit_of_scanNumber c digits
    rw [hmore, List.take_length] at hdigits
    have hspell : (number value spelling).spell = c :: digits := hspelling
    rw [hspell]
    refine (Solid.of_forall (List.cons_ne_nil _ _) (List.forall_mem_cons.mpr
      ⟨isBlank_eq_false_of_isDigit hc, fun d hd => ?_⟩)).toTrimmed
    rcases hdigits d hd with hdigit | rfl
    · exact isBlank_eq_false_of_isDigit hdigit
    · rfl
  | word name =>
    obtain ⟨c, tail, hname, hc, htail⟩ := h
    have hspell : (word name).spell = c :: tail := hname
    rw [hspell]
    exact (Solid.of_forall (List.cons_ne_nil _ _) (List.forall_mem_cons.mpr
      ⟨IsName.isBlank_eq_false (isNamePart_of_isNameStart hc),
        fun d hd => IsName.isBlank_eq_false (htail d hd)⟩)).toTrimmed
  | layout mark => exact absurd h id
  | unknown text => exact absurd h id

theorem trimmed_spaced {t : Token} {words : List Token} (ht : t.Writable) (h : ∀ u ∈ words, u.Writable) :
    Trimmed (t.spell ++ Cell.text (spaced words)) := by
  induction words generalizing t with
  | nil => simpa [spaced] using trimmed_spell ht
  | cons u words ih =>
    obtain ⟨hu, hwords⟩ := List.forall_mem_cons.mp h
    have hcons : Cell.text (spaced (u :: words)) = [' '] ++ (u.spell ++ Cell.text (spaced words)) :=
      Cell.text_cons 1 u _
    rw [hcons]
    exact (trimmed_spell ht).append (ih hu hwords) [' ']

theorem text_spaced (t : Token) (words : List Token) :
    t.spell ++ Cell.text (spaced words) = [' '].intercalate ((t :: words).map spell) := by
  induction words generalizing t with
  | nil => simp [spaced]
  | cons u words ih =>
    have hcons : Cell.text (spaced (u :: words)) = ' ' :: (u.spell ++ Cell.text (spaced words)) :=
      Cell.text_cons 1 u _
    rw [hcons, ih, List.map_cons, List.map_cons, List.map_cons, List.intercalate_cons_cons, List.append_assoc]
    rfl

/-- Placed words have the span of their text, without the blanks in front of it. -/
theorem spanOf_place (gap : Nat) (t : Token) (cells : List Cell) (offset : Nat) :
    spanOf (Cell.place offset ((gap, t) :: cells)) =
      ⟨offset + gap, offset + byteLength (Cell.text ((gap, t) :: cells))⟩ := by
  induction cells generalizing gap t offset with
  | nil =>
    rw [Cell.byteLength_text_cons, Cell.text_nil, byteLength_nil, Nat.add_zero, ← Nat.add_assoc]
    rfl
  | cons cell cells ih =>
    obtain ⟨gap', u⟩ := cell
    have hne : Cell.place (offset + gap + byteLength t.spell) ((gap', u) :: cells) ≠ [] := List.cons_ne_nil _ _
    rw [Cell.place, Expr.spanOf_cons _ hne, ih, Cell.byteLength_text_cons gap t]
    simp only [Nat.add_assoc]

end Token

/-! ## Formulas -/

namespace Draft.Formula
open BranchingStory.Expr (Spelled)
variable {s : Source} {offset : Nat} {stop : Token → Bool}

theorem forall_words (f : Formula) : ∀ t ∈ f.words, t.Writable := List.forall_mem_map.mpr f.writable

theorem exists_words (f : Formula) : ∃ t words, f.words = t :: words ∧ t.Writable ∧ ∀ u ∈ words, u.Writable := by
  obtain ⟨t, rest, htokens⟩ := List.exists_cons_of_ne_nil f.phrase.tokens_ne_nil
  have hwords : f.words = t.node :: rest.map (·.node) := by rw [words, htokens, List.map_cons]
  have hall := f.forall_words
  rw [hwords] at hall
  exact ⟨_, _, hwords, List.forall_mem_cons.mp hall⟩

theorem alike_place (f : Formula) : Alike (Cell.place offset (spaced f.words)) f.phrase.tokens := by
  rw [Alike, Cell.map_node_place, spaced, List.map_map]
  exact List.map_id _

theorem text_ne_empty (f : Formula) : f.text ≠ "" := by
  obtain ⟨t, words, hwords, ht, -⟩ := f.exists_words
  rw [text, hwords, ← text_spaced]
  intro hempty
  have hnil : t.spell ++ Cell.text (spaced words) = [] := by simpa using congrArg String.toList hempty
  exact (trimmed_spell ht).ne_nil (List.append_eq_nil_iff.mp hnil).1

/-- An expression that stands in a source is read as one, and its excerpt is what was written. -/
theorem exists_spelled (f : Formula) (h : s.Holds offset (Cell.text (spaced f.words)))
    (hstop : ∀ t ∈ f.phrase.outer, stop t.node = false) :
    ∃ e, Spelled stop (Cell.place offset (spaced f.words)) e ∧ s.operandText (.parsed e) = f.text := by
  have halike : Alike (Cell.place offset (spaced f.words)) f.phrase.tokens := f.alike_place
  obtain ⟨e, he, hspan⟩ := Expr.Phrase.exists_spelled f.fits f.shallow hstop halike
  obtain ⟨t, words, hwords, ht, hmore⟩ := f.exists_words
  have hcells : spaced f.words = (1, t) :: spaced words := by rw [hwords]; rfl
  have htext : Cell.text (spaced f.words) = [' '] ++ (t.spell ++ Cell.text (spaced words)) := by
    rw [hcells]
    exact Cell.text_cons 1 t _
  have hholds : s.Holds (offset + 1) (t.spell ++ Cell.text (spaced words)) := (htext ▸ h).rest
  have htrim := (trimmed_spaced ht hmore).trim_eq
  refine ⟨e, he, ?_⟩
  have hlength : offset + byteLength (Cell.text (spaced f.words)) =
      offset + 1 + byteLength (t.spell ++ Cell.text (spaced words)) := by
    rw [htext, byteLength_append, ← Nat.add_assoc]
    rfl
  rw [Source.operandText, Operand.span, hspan, hcells, spanOf_place, ← hcells, hlength, hholds.excerpt_eq, htrim,
    text_spaced, text, hwords]

theorem exists_operand (f : Formula) (h : s.Holds offset (Cell.text (spaced f.words))) :
    ∃ e, Spelled Reading.toLineEnd (Cell.place offset (spaced f.words)) e ∧
      s.operandText (.parsed e) = f.text :=
  f.exists_spelled h fun _ _ => rfl

end Draft.Formula

end BranchingStory
