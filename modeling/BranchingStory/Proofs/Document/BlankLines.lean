import BranchingStory.Proofs.Document.TwinDocuments
import BranchingStory.Proofs.Token.BlankLines

/-! # Blank lines in a document

A line of white space and comments that is put between two lines of a source changes nothing in its document but
the places of what stands behind it. -/

namespace BranchingStory
open Token Text
set_option autoImplicit false

namespace Relocation
variable {offset distance : Nat} {t : Lexeme}

/-- At the offset as many bytes are put in: what begins there or later begins so much later, and what ends later
ends so much later. -/
def insertion (offset distance : Nat) : Relocation where
  start o := if o < offset then o else o + distance
  stop l := if l ≤ offset then l else l + distance
  unknown := id
  ordered _ := by
    split <;> split <;> omega

theorem start_insertion {o : Nat} (h : offset ≤ o) : (insertion offset distance).start o = o + distance :=
  if_neg (Nat.not_lt.mpr h)

theorem stop_insertion_of_le {l : Nat} (h : l ≤ offset) : (insertion offset distance).stop l = l := if_pos h

theorem stop_insertion {l : Nat} (h : offset < l) : (insertion offset distance).stop l = l + distance :=
  if_neg (Nat.not_le.mpr h)

theorem span_insertion_of_inFront {s : Span} (h : InFront offset s) : (insertion offset distance).span s = s :=
  congrArg₂ Span.mk (if_pos h.1) (stop_insertion_of_le h.2)

/-- What lies in front of the offset stays. -/
theorem counterpart_of_inFront (h : InFront offset t.span) : (insertion offset distance).Counterpart t t := by
  have hspan : (insertion offset distance).span t.span = t.span := span_insertion_of_inFront h
  exact counterpart_of_place (token_eq_self _ rfl _).symm (congrArg Span.start hspan).symm fun _ => hspan.symm

/-- What lies behind the offset is moved on. -/
theorem counterpart_of_beyond {ts : List Lexeme} (h : Beyond offset ts) (ht : t ∈ ts) :
    (insertion offset distance).Counterpart t (t.shift distance) := by
  have hstart : (insertion offset distance).start t.span.start = t.span.start + distance :=
    start_insertion (h.start_le _ ht)
  exact counterpart_of_place (token_eq_self _ rfl _).symm hstart.symm fun hnode =>
    (congrArg₂ Span.mk hstart (stop_insertion (h.lt_stop _ ht hnode))).symm

end Relocation

namespace Source
variable {front behind line : List Char}

/-- A line of white space and comments between two lines of a source is one more blank line and nothing else: the
tokens in front of it stay, those behind it stand further on, and the document is the same but for the places of
what stands behind the line. -/
theorem document_remark (hends : EndsLine front behind) (hline : Remark line) (tabWidth : Nat) :
    (∃ ahead later, tokens { text := front ++ behind } tabWidth = ahead ++ later ∧
      tokens { text := front ++ (line ++ behind) } tabWidth =
        ahead ++ mark .blankLine (Remark.stop (byteLength front) line) :: later.map (·.shift (byteLength line)) ∧
      (∀ t ∈ ahead, InFront (byteLength front) t.span) ∧ ∀ t ∈ later, byteLength front ≤ t.span.start) ∧
    document { text := front ++ (line ++ behind) } tabWidth =
      (Relocation.insertion (byteLength front) (byteLength line)).document
        (document { text := front ++ behind } tabWidth) := by
  obtain ⟨ahead, later, htokens, htokens', hahead, hlast, hbeyond⟩ := exists_tokens_remark hends hline tabWidth
  refine ⟨⟨ahead, later, htokens, htokens', hahead, hbeyond.start_le⟩, ?_⟩
  have hshaped := shaped_tokens { text := front ++ behind } tabWidth
  have hlaid := laid_tokens { text := front ++ behind } tabWidth
  rw [htokens] at hshaped hlaid
  have hfront : ∀ t ∈ ahead, (Relocation.insertion (byteLength front) (byteLength line)).Counterpart t t :=
    fun t ht => Relocation.counterpart_of_inFront (hahead t ht)
  have hback : ∀ t ∈ later, (Relocation.insertion (byteLength front) (byteLength line)).Counterpart t
      (t.shift (byteLength line)) := fun t ht => Relocation.counterpart_of_beyond hbeyond ht
  obtain ⟨n, hlater, htwin⟩ := Twin.of_map_append hshaped hlast hfront
  have htwins := htwin (.right (.of_map hlater hback) (s := Remark.stop (byteLength front) line))
  rw [List.map_id'] at htwins
  rw [document, document, htokens, htokens', length_eq, length_eq]
  refine Document.ofLexemes_twins (Relocation.stop_insertion_of_le (Nat.zero_le _)) htwins hlaid rfl ?_
  rw [Relocation.start_insertion] <;> simp only [byteLength_append] <;> omega

def cellar : List Char := "story s: // cellar\n".toList
def remark : List Char := "\t/* a\nb */ // c\n".toList
def stairs : List Char := "\n  scene a:\n".toList

theorem document_remark_stairs : EndsLine cellar stairs ∧ Remark remark ∧
    document { text := cellar ++ (remark ++ stairs) } 8 =
      (Relocation.insertion 19 16).document (document { text := cellar ++ stairs } 8) := by
  have hends : EndsLine cellar stairs := .inr ⟨⟨18, 19⟩, by decide +kernel⟩
  have hremark : Remark remark :=
    .blank rfl (@Remark.block " a\nb ".toList _ (by decide +kernel)
      (.blank rfl (@Remark.toEnd " c".toList (by decide))))
  exact ⟨hends, hremark, (document_remark hends hremark 8).2⟩

end Source

end BranchingStory
