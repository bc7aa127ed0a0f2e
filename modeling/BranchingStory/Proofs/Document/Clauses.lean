import BranchingStory.Proofs.Document.Openings
import BranchingStory.Proofs.Document.Origins
import BranchingStory.Proofs.Expr.Shifting

/-! # The operands of lines

An operand is cut out of the tokens of its line, so an expression that stands in a document is what the parser
makes of tokens that follow one another in the source. The text from the first of them to the last is scanned as
just these tokens, wherever it stands, and no blank stands around it. -/

namespace BranchingStory
open Text Token Piece
set_option autoImplicit false

/-- If there is an operand and it is an expression, is it what some consecutive tokens are read as? -/
def Operand.Among (ts : List Lexeme) (o : Option Operand) : Prop :=
  ∀ e, o = some (.parsed e) → ∃ words, words <:+: ts ∧ Expr.parse? words = some e

theorem Operand.among_none (ts : List Lexeme) : Operand.Among ts none := nofun

namespace Reading
variable {ts : List Lexeme}

theorem operand_keeps (ts : List Lexeme) (stop : Token → Bool) : Keeps ts (Operand.Among ts) (operand stop) := by
  intro c hc e he
  rw [operand] at he
  dsimp only at he
  split at he
  · exact absurd he nofun
  · next first rest htake =>
    split at he
    · next e' hread =>
      obtain rfl := Operand.parsed.inj (Option.some.inj he)
      exact ⟨first :: rest, htake ▸ (List.take_prefix _ _).isInfix.trans hc.isInfix, hread⟩
    · exact absurd he (by simp)

theorem operandBehind_keeps (ts : List Lexeme) (word : String) (stop : Token → Bool) :
    Keeps ts (Operand.Among ts) (do
      if (← peek?) = some (.word word) then
        advance
        operand stop
      else return none) := by
  refine keeps_bind _ fun next => ?_
  split
  · exact keeps_bind _ fun _ => operand_keeps ts stop
  · exact keeps_pure (Operand.among_none ts)

/-! ## Whole lines -/

/-- Is the operand of the line, if it is an expression, what some tokens are read as? -/
def Grounded (ts : List Lexeme) (first : FirstLine) : Prop := Operand.Among ts first.operand?

theorem wholeLine_keeps {form : Reading Form} (h : Keeps ts (fun f => Operand.Among ts f.operand?) form) :
    Keeps ts (Grounded ts) (wholeLine form) :=
  h.bind fun _ hf => keeps_bind _ fun _ => keeps_pure hf

theorem optionLine_keeps (ts : List Lexeme) : Keeps ts (Grounded ts) optionLine := by
  refine keeps_bind _ fun label => (operandBehind_keeps ts "when" atColonOrGoto).bind fun guard hguard => ?_
  refine keeps_bind _ fun next => ?_
  split
  · exact keeps_bind _ fun _ => keeps_bind _ fun target => keeps_bind _ fun _ => keeps_pure hguard
  · exact keeps_bind _ fun _ => keeps_bind _ fun _ => keeps_pure hguard
  · exact keeps_bind _ fun _ => keeps_pure hguard

theorem firstLine_keeps (ts : List Lexeme) (word : Name) (head : Head) :
    Keeps ts (Grounded ts) (firstLine word head) := by
  have hnone := Operand.among_none ts
  cases head with
  | declaration kind =>
    refine keeps_bind _ fun name => ?_
    dsimp only
    split
    · exact (keeps_pure hnone).bind fun guard h => keeps_bind _ fun _ => keeps_pure h
    · exact (operandBehind_keeps ts "when" atColon).bind fun guard h => keeps_bind _ fun _ => keeps_pure h
  | config => exact keeps_bind _ fun _ => keeps_pure hnone
  | choice =>
    exact (operandBehind_keeps ts "when" atColon).bind fun guard h => keeps_bind _ fun _ => keeps_pure h
  | option => exact optionLine_keeps ts
  | goto => exact wholeLine_keeps (keeps_bind _ fun _ => keeps_pure hnone)
  | finish => exact wholeLine_keeps (keeps_pure hnone)
  | giveBack => exact wholeLine_keeps (keeps_pure hnone)
  | «include» => exact wholeLine_keeps (keeps_bind _ fun _ => keeps_pure hnone)
  | guard => exact wholeLine_keeps ((operand_keeps ts toLineEnd).bind fun _ h => keeps_pure h)
  | say => exact wholeLine_keeps (keeps_bind _ fun _ => keeps_bind _ fun _ => keeps_pure hnone)
  | stage => exact wholeLine_keeps (keeps_bind _ fun _ => keeps_pure hnone)
  | set =>
    exact wholeLine_keeps (keeps_bind _ fun _ => keeps_bind _ fun _ =>
      (operand_keeps ts toLineEnd).bind fun _ h => keeps_pure h)
  | emit =>
    exact wholeLine_keeps (keeps_bind _ fun _ =>
      (operandBehind_keeps ts "with" toLineEnd).bind fun _ h => keeps_pure h)
  | assignment =>
    exact wholeLine_keeps (keeps_bind _ fun _ => (operand_keeps ts toLineEnd).bind fun _ h => keeps_pure h)

end Reading

/-! ## Texts of expressions -/

/-- A text is read as the same expression wherever it stands. -/
theorem Expr.parse?_lexemes (offset : Nat) (text : List Char) :
    Expr.parse? (lexemes offset text) = (Expr.parse? (lexemes 0 text)).map (·.shift offset) := by
  rw [← parse?_shift, ← lexemes_shift, Nat.zero_add]

/-- Is the text what the expression is written with, from its first token to its last? -/
structure Expr.WrittenAs (e : Expr) (text : List Char) : Prop where
  tight : Piece.Tight (pieces 0 text)
  reads : Expr.parse? (lexemes e.span.start text) = some e

namespace Expr.WrittenAs
variable {e : Expr} {text : List Char}

/-- By itself the text is read as the same expression, which begins at its front. -/
theorem exists_base (h : e.WrittenAs text) :
    ∃ base, Expr.parse? (lexemes 0 text) = some base ∧ base.shift e.span.start = e := by
  have hreads := h.reads
  rw [parse?_lexemes] at hreads
  exact Option.map_eq_some_iff.mp hreads

theorem known (h : e.WrittenAs text) : ∀ t ∈ lexemes 0 text, t.node.Known := by
  obtain ⟨base, hbase, -⟩ := h.exists_base
  obtain ⟨p, ⟨-, hp⟩, -⟩ := parse?_eq_some_iff.mp hbase
  intro t ht
  have hin := p.inOperand t (hp ▸ ht)
  exact ⟨hin.1, hin.2.2⟩

theorem trimmed (h : e.WrittenAs text) : Trimmed text := by
  rw [← textOf_pieces 0 text]
  refine h.tight.trimmed (apt_pieces _ _) (fun t ht => ?_) fun t ht => ?_
  · exact h.known t (lexemesOf_pieces 0 text ▸ List.mem_of_head? ht)
  · exact h.known t (lexemesOf_pieces 0 text ▸ List.mem_of_getLast? ht)

end Expr.WrittenAs

/-- Consecutive tokens of a source that are an expression are written with the text that stands there. -/
theorem Expr.exists_written {s : Source} {tabWidth : Nat} {words : List Lexeme} {e : Expr}
    (hwords : words <:+: tokens s tabWidth) (h : Expr.parse? words = some e) :
    ∃ text, e.WrittenAs text ∧ s.Holds e.span.start text ∧ e.span.stop = e.span.start + byteLength text := by
  obtain ⟨p, ⟨-, rfl⟩, rfl, -⟩ := Expr.parse?_eq_some_iff.mp h
  have hproper : ∀ t ∈ p.tokens, t.node.isLayout = false := fun t ht => (p.inOperand t ht).1
  obtain ⟨before, behind, hsplit⟩ := hwords
  have hne : proper p.tokens ≠ [] := by
    rw [proper_of_words hproper]
    exact p.tokens_ne_nil
  obtain ⟨ps, ends, hps, htight, hscanned, hends, -⟩ := exists_pieces (by rw [← hsplit, List.append_assoc]) hne
  obtain rfl : ends = [] := by
    refine List.eq_nil_iff_forall_not_mem.mpr fun t ht => ?_
    have hmem : t ∈ p.tokens := by
      rw [← scanned_of_proper hproper, hscanned]
      exact List.mem_append_right _ ht
    exact absurd (hends t ht) (by simp [isNewline_eq_false (hproper t hmem)])
  rw [scanned_of_proper hproper, List.append_nil] at hscanned
  obtain ⟨start, hholds, hpieces⟩ := exists_pieces_eq hps
  have hspan := htight.spanOf_eq (hpieces ▸ placed_pieces start (textOf ps))
  rw [← hscanned, ← p.span_expr] at hspan
  have hstart : p.expr.span.start = start := congrArg Span.start hspan
  have hstop : p.expr.span.stop = start + byteLength (textOf ps) := congrArg Span.stop hspan
  refine ⟨textOf ps, ⟨?_, ?_⟩, ?_, ?_⟩
  · rw [← hpieces, ← Nat.zero_add start, pieces_shift] at htight
    exact htight.of_shift
  · rwa [hstart, ← lexemesOf_pieces, hpieces, ← hscanned]
  · rwa [hstart]
  · rw [hstart, hstop]

/-! ## Whole documents -/

namespace Source
open Statement

/-- Each expression that stands in a document is what the parser makes of consecutive tokens of the source. -/
theorem document_operands (s : Source) (tabWidth : Nat) :
    ∀ item ∈ trees (s.document tabWidth).statements, Operand.Among (tokens s tabWidth) item.operand? := by
  obtain ⟨⟨c, hc, hstatements⟩, -⟩ := s.document_sits tabWidth
  rw [hstatements]
  refine (reads_read .topLevel c).forall_trees (fun _ => Operand.among_none _)
    (fun _ _ _ => Operand.among_none _) ?_ hc
  rintro context c d t first issues item hc ⟨rest, head, word, -, -, -, hvalue, -⟩ - hoperand - - - -
  have hkeeps := Reading.firstLine_keeps (tokens s tabWidth) word head (c.pass 1)
    ((c.pass_suffix 1).trans hc.suffix)
  rw [hvalue] at hkeeps
  rw [hoperand]
  exact hkeeps

/-- What is stored for an expression of a document is the text that it is written with. -/
theorem operandText_written {s : Source} {tabWidth : Nat} {item : Statement}
    (hitem : item ∈ trees (s.document tabWidth).statements) {e : Expr} (h : item.operand? = some (.parsed e)) :
    ∃ text, e.WrittenAs text ∧ s.operandText (.parsed e) = String.ofList text := by
  obtain ⟨words, hwords, hread⟩ := s.document_operands tabWidth item hitem e h
  obtain ⟨text, hwritten, hholds, hstop⟩ := Expr.exists_written hwords hread
  refine ⟨text, hwritten, ?_⟩
  show s.excerpt e.span = _
  rw [show e.span = ⟨e.span.start, e.span.start + byteLength text⟩ by rw [← hstop], hholds.excerpt_eq,
    hwritten.trimmed.trim_eq]

end Source

end BranchingStory
