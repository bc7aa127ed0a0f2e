import BranchingStory.Proofs.Script.Nesting
import BranchingStory.Proofs.Script.Walk

/-! # Where diagnostics stand

Every finding is made about a node, a statement, an issue or a name, each of which has its place in the
source. -/

namespace BranchingStory
open Text Token
set_option autoImplicit false

/-! ## Findings about nodes -/

theorem Node.Nested.every {text : List Char} {outer : Range} {n : Node} (h : n.Nested text)
    (hwithin : n.range.Within text outer) : n.Every fun m => m.range.Within text outer := by
  induction h with
  | intro actions choices children offers inner ih =>
    refine .intro hwithin fun m hm => ih m hm ?_
    exact (children.within m.range (List.mem_map_of_mem hm)).trans hwithin

/-! ## Findings about statements -/

namespace Source
open Statement
variable {s : Source} {ts : List Lexeme}

theorem issueFound_within {issue : Issue} (h : issue.Fits s.text) :
    (s.issueFound issue).range.Within s.text s.index.fullRange := by
  cases issue with
  | missing segment offset => exact range_within ⟨Nat.le_refl _, h, h⟩
  | unexpected span => exact range_within h

theorem formFindings_within {span : Span} (h : span.Fits s.text) (form : Form) :
    ∀ f ∈ s.formFindings span form, f.range.Within s.text s.index.fullRange := by
  intro f hf
  unfold formFindings at hf
  split at hf
  · rw [List.mem_singleton.mp hf]
    exact range_within h
  · rw [List.mem_singleton.mp hf]
    exact range_within h
  · simp at hf

mutual

theorem issuesOf_within {lo hi : Nat} (item : Statement) (h : Placed s.text ts lo hi item) :
    ∀ f ∈ s.issuesOf item, f.range.Within s.text s.index.fullRange := by
  match item with
  | .line form span issues =>
    obtain ⟨hfits, -, hissues, -⟩ := h
    rw [issuesOf]
    refine List.forall_mem_append.mpr ⟨formFindings_within hfits form, ?_⟩
    exact List.forall_mem_map.mpr fun issue hissue => issueFound_within (hissues issue hissue)
  | .bare header span issues =>
    obtain ⟨-, hissues, -⟩ := h
    rw [issuesOf]
    exact List.forall_mem_map.mpr fun issue hissue => issueFound_within (hissues issue hissue)
  | .block header extent items span issues =>
    obtain ⟨-, hissues, -, hitems⟩ := h
    rw [issuesOf]
    refine List.forall_mem_append.mpr ⟨?_, issuesIn_within items hitems⟩
    exact List.forall_mem_map.mpr fun issue hissue => issueFound_within (hissues issue hissue)

theorem issuesIn_within {lo hi : Nat} (items : List Statement) (h : AllPlaced s.text ts lo hi items) :
    ∀ f ∈ s.issuesIn items, f.range.Within s.text s.index.fullRange := by
  match items with
  | [] => simp [issuesIn]
  | item :: rest =>
    obtain ⟨middle, -, hitem, hrest⟩ := h
    rw [issuesIn]
    exact List.forall_mem_append.mpr ⟨issuesOf_within item hitem, issuesIn_within rest hrest⟩

end

section Uses
variable (targets : List String)

theorem targetFindings_within (hwords : ∀ t ∈ ts, t.span.Fits s.text) {target : Name} (h : target.IsWord ts) :
    ∀ f ∈ s.targetFindings targets target, f.range.Within s.text s.index.fullRange := by
  rw [targetFindings]
  split
  · exact List.forall_mem_singleton.mpr (range_within (hwords _ h))
  · simp

theorem headerFindings_within (hwords : ∀ t ∈ ts, t.span.Fits s.text) {span : Span} (hspan : span.Fits s.text)
    (inBeat hasBlock : Bool) {header : Header} (h : header.Named ts) :
    ∀ f ∈ s.headerFindings targets inBeat hasBlock span header, f.range.Within s.text s.index.fullRange := by
  unfold headerFindings
  split
  · split
    · simp
    · exact List.forall_mem_singleton.mpr (range_within hspan)
  · exact targetFindings_within targets hwords (h _ rfl)
  · split
    · simp
    · exact List.forall_mem_singleton.mpr (range_within hspan)
  · simp

mutual

theorem useFindings_within (hwords : ∀ t ∈ ts, t.span.Fits s.text) {lo hi : Nat} (inBeat : Bool)
    (item : Statement) (h : Placed s.text ts lo hi item) :
    ∀ f ∈ s.useFindings targets inBeat item, f.range.Within s.text s.index.fullRange := by
  match item with
  | .line form span issues =>
    obtain ⟨-, -, -, hnamed⟩ := h
    rw [useFindings]
    unfold lineFindings
    split
    · exact targetFindings_within targets hwords (hnamed _ rfl)
    · simp
  | .bare header span issues =>
    obtain ⟨hspan, -, hnamed⟩ := h
    rw [useFindings]
    exact headerFindings_within targets hwords hspan.toFits inBeat false hnamed
  | .block header extent items span issues =>
    obtain ⟨hspan, -, hnamed, hitems⟩ := h
    rw [useFindings]
    exact List.forall_mem_append.mpr ⟨headerFindings_within targets hwords hspan.toFits inBeat true hnamed,
      usesFindings_within hwords (inBeat || opensBeat header) items hitems⟩

theorem usesFindings_within (hwords : ∀ t ∈ ts, t.span.Fits s.text) {lo hi : Nat} (inBeat : Bool)
    (items : List Statement) (h : AllPlaced s.text ts lo hi items) :
    ∀ f ∈ s.usesFindings targets inBeat items, f.range.Within s.text s.index.fullRange := by
  match items with
  | [] => simp [usesFindings]
  | item :: rest =>
    obtain ⟨middle, -, hitem, hrest⟩ := h
    rw [usesFindings]
    exact List.forall_mem_append.mpr
      ⟨useFindings_within hwords inBeat item hitem, usesFindings_within hwords inBeat rest hrest⟩

end

end Uses

end Source

/-! ## All ranges of an analysis -/

/-- Do the ranges of a script nest inside the text, and do the diagnostics lie in it? -/
structure Analysis.Nested (text : List Char) (a : Analysis) : Prop where
  whole : a.script.range.span = ⟨0, byteLength text⟩
  inOrder : Range.InOrder text a.script.range (a.script.nodes.map (·.range))
  nodes : ∀ n ∈ a.script.nodes, n.Nested text
  diagnostics : ∀ d ∈ a.diagnostics, d.range.Within text a.script.range

namespace Source

/-- Whatever the source, its ranges nest. -/
theorem nested_analyse (s : Source) (tabWidth : Nat) : (s.analyse tabWidth).Nested s.text := by
  obtain ⟨hplaced, hfence⟩ := s.document_placed tabWidth
  obtain ⟨hinOrder, hnodes⟩ := s.nodes_inOrder tabWidth
  have hwords : ∀ t ∈ tokens s tabWidth, t.span.Fits s.text := (laid_tokens s tabWidth).fits
  have hwalk : ∀ v ∈ (s.script (s.document tabWidth)).walk, v.node.range.Within s.text s.index.fullRange :=
    Script.forall_walk fun n hn => (hnodes n hn).every (hinOrder.within _ (List.mem_map_of_mem hn))
  refine ⟨s.span_fullRange, hinOrder, hnodes, ?_⟩
  intro d hd
  obtain ⟨f, hf, rfl⟩ := List.mem_map.mp hd
  show f.range.Within s.text s.index.fullRange
  rw [findings, syntaxFindings, meaningFindings] at hf
  rcases List.mem_append.mp hf with hf | hf
  · rcases List.mem_append.mp hf with hf | hf
    · cases hmetadata : (s.document tabWidth).metadata with
      | none => simp [hmetadata] at hf
      | some fence =>
        rw [hmetadata] at hf
        obtain ⟨issue, hissue, rfl⟩ := List.mem_map.mp hf
        exact issueFound_within (hfence fence hmetadata issue hissue)
    · exact issuesIn_within _ hplaced f hf
  · rcases List.mem_append.mp hf with hf | hf
    · rcases List.mem_append.mp hf with hf | hf
      · obtain ⟨v, hv, heq⟩ := Node.range_of_siblingFindings none [] [] 0 _ f hf
        rw [heq]
        exact hwalk v hv
      · obtain ⟨v, hv, heq⟩ := Visit.range_of_collisions [] _ f hf
        rw [heq]
        exact hwalk v ((List.mem_filter.mp hv).1)
    · exact usesFindings_within _ hwords false _ hplaced f hf

end Source

end BranchingStory
