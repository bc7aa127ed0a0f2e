import BranchingStory.Proofs.Document.Origins
import BranchingStory.Proofs.Script.Nesting
import BranchingStory.Proofs.Script.Targets

/-! # The options of a script

Whatever the source, the target of an option is a word, and every option takes up some of the text. So no
list of options is longer than the text. -/

namespace BranchingStory
open Text Token
set_option autoImplicit false

/-- Are the options at most `limit`, with words for targets, and also those in the body of each of them? -/
inductive Choice.Listed (limit : Nat) : List Choice → Prop
  | intro {cs : List Choice} (length_le : cs.length ≤ limit) (words : ∀ c ∈ cs, ∀ t ∈ c.target, IsName t)
      (inner : ∀ c ∈ cs, Listed limit c.choices) : Listed limit cs

namespace Choice.Listed
variable {limit : Nat} {cs : List Choice}

theorem nil (limit : Nat) : Listed limit [] := .intro (Nat.zero_le _) (by simp) (by simp)

theorem length_le (h : Listed limit cs) : cs.length ≤ limit := by
  cases h with
  | intro hlength _ _ => exact hlength

theorem inner (h : Listed limit cs) : ∀ c ∈ cs, Listed limit c.choices := by
  cases h with
  | intro _ _ hinner => exact hinner

theorem isName (h : Listed limit cs) {c : Choice} (hc : c ∈ cs) {t : String}
    (ht : c.explicitTarget? = some t) : IsName t := by
  cases h with
  | intro _ hwords _ =>
    rw [explicitTarget?_eq (hwords c hc)] at ht
    exact hwords c hc t ht

end Choice.Listed

/-- Parts that are not empty are no more than the places between their bounds. -/
theorem Parts.length_le {α : Type} {text : List Char} {range : α → Range} {lo hi : Nat} {xs : List α}
    (h : Parts text range lo hi xs) (hproper : ∀ x ∈ xs, (range x).start.offset < (range x).stop.offset) :
    lo + xs.length ≤ hi := by
  induction xs generalizing lo with
  | nil => exact h
  | cons x xs ih =>
    obtain ⟨-, hlo, hbehind⟩ := h
    obtain ⟨hx, hxs⟩ := List.forall_mem_cons.mp hproper
    have hmore := ih hbehind hxs
    rw [List.length_cons]
    omega

namespace Source
open Statement
variable {s : Source} {tabWidth : Nat}

theorem encloses_trees (s : Source) (tabWidth : Nat) :
    ∀ item ∈ trees (s.document tabWidth).statements, item.Encloses s.text (tokens s tabWidth) :=
  forall_trees (fun _ hitem => hitem.body.encloses) (s.document_placed tabWidth).1.encloses

/-- Every option of a document takes up some of the text. -/
theorem start_lt_stop_choices {items : List Statement}
    (hitems : ∀ item ∈ items, item ∈ trees (s.document tabWidth).statements) :
    ∀ c ∈ s.choices items, c.range.start.offset < c.range.stop.offset := by
  refine choices_all mem_trees_items ?_ hitems
  intro outer item label guard target hitem hheader _
  have hspan := span_range (s.encloses_trees tabWidth item hitem).fits
  have hstart : (s.range item.span).start.offset = item.span.start := congrArg Span.start hspan
  have hstop : (s.range item.span).stop.offset = item.span.stop := congrArg Span.stop hspan
  show (s.range item.span).start.offset < (s.range item.span).stop.offset
  rw [hstart, hstop]
  exact (s.document_openedBy tabWidth item hitem _ hheader).start_lt_stop

theorem listed_choices {item : Statement} (hitem : item ∈ trees (s.document tabWidth).statements) :
    Choice.Listed (byteLength s.text) (s.choices item.items) := by
  have hlength : ∀ item ∈ trees (s.document tabWidth).statements,
      (s.choices item.items).length ≤ byteLength s.text := by
    intro item hitem
    have hencloses := s.encloses_trees tabWidth item hitem
    have hcount := (choices_parts hencloses.body).length_le
      (start_lt_stop_choices (mem_trees_items item hitem))
    have hstop := hencloses.fits.stop.le
    omega
  have hinside : ∀ item ∈ trees (s.document tabWidth).statements, ∀ c ∈ s.choices item.items,
      (∀ t ∈ c.target, IsName t) ∧ Choice.Listed (byteLength s.text) c.choices := by
    intro item hitem
    refine choices_all mem_trees_items ?_ (mem_trees_items item hitem)
    intro outer item label guard target hitem hheader hinner
    refine ⟨fun t ht => ?_, .intro (hlength item hitem) (fun c hc => (hinner c hc).1) fun c hc => (hinner c hc).2⟩
    obtain ⟨name, hname, rfl⟩ := Option.map_eq_some_iff.mp ht
    exact isName_of_mem_tokens ((s.document_openedBy tabWidth item hitem _ hheader).named name hname)
  exact .intro (hlength item hitem) (fun c hc => (hinside item hitem c hc).1)
    fun c hc => (hinside item hitem c hc).2

theorem listed_walk (s : Source) (tabWidth : Nat) :
    ∀ v ∈ (s.analyse tabWidth).script.walk, Choice.Listed (byteLength s.text) v.node.choices := by
  intro v hv
  obtain ⟨item, hitem, hmakes⟩ := s.makes_walk tabWidth v hv
  rcases hmakes.choices with hnil | heq
  · rw [hnil]
    exact .nil _
  · rw [heq]
    exact listed_choices hitem

end Source

end BranchingStory
