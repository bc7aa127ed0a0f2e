import BranchingStory.Proofs.Document.Manuscripts
import BranchingStory.Proofs.Token.Sheets

/-! # Sheets as passages

Lines of a sheet that are lines of the grammar, each as deep as the block that it stands in, form a passage of the
grammar. -/

namespace BranchingStory
open Token Grammar
set_option autoImplicit false

/-- What is behind a sheet when the levels are open: a mark closes each of them. -/
def Closing (close : List Nat → Nat → List Lexeme) : Prop :=
  ∀ level levels offset, ∃ span, close (level :: levels) offset = mark .dedent span :: close levels offset

/-- Are the lines, from the offset up to those that begin at the other one, a passage of the context? -/
structure SheetReads (close : List Nat → Nat → List Lexeme) (context : Context) (levels : List Nat) (offset : Nat)
    (xs : List Strip) (p : Passage) (stop : Nat) (ys : List Strip) : Prop where
  fits : p.Fits context
  tokens : layStrips close levels offset xs = p.tokens ++ layStrips close levels stop ys

/-- Do the lines begin with one that has tokens and is no deeper than the innermost level, if there are any? -/
def Ascends (levels : List Nat) (xs : List Strip) : Prop :=
  ∀ x ∈ xs.head?, (∀ offset, x.HasWords offset) ∧ x.width ≤ levels.headD 0

theorem hasWords_of_lineIn {context : Context} {x : Strip} {offset : Nat} {first : FirstLine}
    (h : LineIn context (x.place (offset + x.width)) first) : x.HasWords offset := by
  obtain ⟨name, span, more, hplace⟩ := h.exists_word
  rw [Strip.HasWords, hplace]
  exact List.cons_ne_nil _ _

/-- In front of lines that are no deeper the innermost level is closed. -/
theorem Ascends.exists_closing {close : List Nat → Nat → List Lexeme} {level offset : Nat} {levels : List Nat}
    {xs : List Strip} (h : Ascends levels xs) (hclose : Closing close) (hlevel : levels.headD 0 < level) :
    ∃ span, layStrips close (level :: levels) offset xs = mark .dedent span :: layStrips close levels offset xs := by
  cases xs with
  | nil => exact hclose level levels offset
  | cons x xs =>
    obtain ⟨hx, hwidth⟩ := h x rfl
    exact ⟨_, layStrips_closing (hx offset) hlevel hwidth⟩

namespace SheetReads
variable {close : List Nat → Nat → List Lexeme} {context inner : Context} {levels : List Nat}
  {offset middle stop : Nat} {x y : Strip} {xs ys zs : List Strip} {p q : Passage} {header : Header}

theorem done : SheetReads close context levels offset xs .done offset xs := ⟨trivial, rfl⟩

theorem blank (h : SheetReads close context levels (offset + 1) xs p stop ys) :
    SheetReads close context levels offset (.blank :: xs) (.mark (mark .blankLine ⟨offset, offset + 1⟩) p) stop ys where
  fits := ⟨.inl rfl, h.fits⟩
  tokens := by
    rw [layStrips_blank, h.tokens]
    rfl

theorem line {form : Form} (hwidth : levels.headD 0 = x.width)
    (hline : LineIn context (x.place (offset + x.width)) (.line form))
    (h : SheetReads close context levels (offset + Text.byteLength x.line) xs p stop ys) :
    SheetReads close context levels offset (x :: xs)
      (.line (x.place (offset + x.width)) (x.feed offset) form p) stop ys where
  fits := ⟨hline, h.fits⟩
  tokens := by
    rw [layStrips_same (hasWords_of_lineIn hline) hwidth, h.tokens, Passage.tokens, List.append_assoc, List.cons_append]

theorem bare (hwidth : levels.headD 0 = x.width)
    (hline : LineIn context (x.place (offset + x.width)) (.bare header))
    (h : SheetReads close context levels (offset + Text.byteLength x.line) xs p stop ys) :
    SheetReads close context levels offset (x :: xs)
      (.bare (x.place (offset + x.width)) (x.feed offset) header p) stop ys where
  fits := ⟨.inl hline, h.fits⟩
  tokens := by
    rw [layStrips_same (hasWords_of_lineIn hline) hwidth, h.tokens, Passage.tokens, List.append_assoc, List.cons_append]

/-- A line in front of deeper ones, which are its block up to the first one that is no deeper than itself. -/
theorem block {required : Bool} (hclose : Closing close) (hwidth : levels.headD 0 = x.width)
    (hline : LineIn context (x.place (offset + x.width)) (.opening header inner required))
    (hdeeper : x.width < y.width) (hy : y.HasWords (offset + Text.byteLength x.line))
    (hbody : SheetReads close inner (y.width :: levels) (offset + Text.byteLength x.line) (y :: xs) q middle ys)
    (hys : Ascends levels ys) (h : SheetReads close context levels middle ys p stop zs) :
    ∃ opening closing, opening.start = offset + Text.byteLength x.line + y.width ∧
      SheetReads close context levels offset (x :: y :: xs)
        (.block (x.place (offset + x.width)) (x.feed offset) header inner [] opening q closing p) stop zs := by
  have hlevel : levels.headD 0 < y.width := hwidth ▸ hdeeper
  obtain ⟨closing, hclosing⟩ := hys.exists_closing hclose hlevel
  refine ⟨⟨offset + Text.byteLength x.line + y.width, offset + Text.byteLength x.line + y.width⟩, closing, rfl,
    ⟨⟨required, hline⟩, hbody.fits, h.fits⟩, ?_⟩
  rw [layStrips_same (hasWords_of_lineIn hline) hwidth, layStrips_opening hy hlevel, hbody.tokens, hclosing, h.tokens,
    Passage.tokens]
  simp

end SheetReads

end BranchingStory
