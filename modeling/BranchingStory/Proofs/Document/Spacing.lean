import BranchingStory.Proofs.Document.TwinDocuments
import BranchingStory.Proofs.Token.Spacing

/-! # Documents that are spelled otherwise

Where only line ends and the white space at the front of lines are spelled in another way, the same document is
read, and only its parts stand elsewhere. -/

namespace BranchingStory
open Token
set_option autoImplicit false

namespace Relocation

/-- Everything is put in one place, and unknown texts say nothing. -/
def flat : Relocation := ⟨fun _ => 0, fun _ => 0, fun _ => "", fun _ => Nat.le_refl 0⟩

theorem lexeme_flat (t : Lexeme) : flat.lexeme t = ⟨flat.token t.node.veiled, ⟨0, 0⟩⟩ := by
  obtain ⟨node, span⟩ := t
  cases node <;> rfl

theorem map_lexeme_flat (ts : List Lexeme) :
    ts.map flat.lexeme = (ts.map (·.node.veiled)).map fun t => ⟨flat.token t, ⟨0, 0⟩⟩ := by
  rw [List.map_map]
  exact List.map_congr_left fun t _ => lexeme_flat t

end Relocation

namespace Source
variable {text text' : List Char} {tabWidth : Nat}

/-- A document is read from the tokens alone, wherever they stand. -/
theorem document_flat (s : Source) (tabWidth : Nat) :
    Relocation.flat.document (s.document tabWidth) =
      Document.ofLexemes ((tokens s tabWidth).map Relocation.flat.lexeme) 0 :=
  (Document.ofLexemes_twins rfl (.of_map (shaped_tokens s tabWidth) fun t _ => Relocation.flat.counterpart_lexeme t)
    (laid_tokens s tabWidth) s.length_eq rfl).symm

theorem document_respelled (h : Respelled (max tabWidth 1) .empty text text') :
    Relocation.flat.document (document { text := text' } tabWidth) =
      Relocation.flat.document (document { text := text } tabWidth) := by
  rw [document_flat, document_flat, Relocation.map_lexeme_flat, h.tokens, Relocation.map_lexeme_flat]

/-- Carriage returns in front of the line feeds, and spaces in place of the tabs at the front of the lines, leave all
tokens, but for the text of an unclosed block comment, and the document, but for the places of its parts. -/
theorem spelling (text : List Char) (tabWidth : Nat) :
    ((tokens { text := withReturns text } tabWidth).map (·.node.veiled) =
        (tokens { text := text } tabWidth).map (·.node.veiled) ∧
      Relocation.flat.document (document { text := withReturns text } tabWidth) =
        Relocation.flat.document (document { text := text } tabWidth)) ∧
    (tokens { text := withoutTabs (max tabWidth 1) .empty text } tabWidth).map (·.node.veiled) =
        (tokens { text := text } tabWidth).map (·.node.veiled) ∧
      Relocation.flat.document (document { text := withoutTabs (max tabWidth 1) .empty text } tabWidth) =
        Relocation.flat.document (document { text := text } tabWidth) := by
  have hreturns : Respelled (max tabWidth 1) .empty text (withReturns text) := respelled_withReturns _ _
  have htabs : Respelled (max tabWidth 1) .empty text (withoutTabs (max tabWidth 1) .empty text) :=
    respelled_withoutTabs _ _
  exact ⟨⟨hreturns.tokens, document_respelled hreturns⟩, htabs.tokens, document_respelled htabs⟩

end Source

end BranchingStory
