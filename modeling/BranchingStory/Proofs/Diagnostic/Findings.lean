import BranchingStory.Proofs.Document.Manuscripts
import BranchingStory.Proofs.Script.Targets

/-! # Sources without an error

Where no error is found, reading had no issue, so the grammar derives the source, and the checks of choices
and targets have found nothing. -/

namespace BranchingStory.Source
open Token Grammar
set_option autoImplicit false

variable {s : Source} {tabWidth : Nat}

/-! ## Findings of reading -/

theorem severity_issueFound (issue : Issue) : (s.issueFound issue).finding.severity = .error := by
  cases issue <;> rfl

theorem severity_formFindings (span : Span) (form : Form) :
    ∀ f ∈ s.formFindings span form, f.finding.severity = .error := by
  cases form with
  | erroneous => exact List.forall_mem_singleton.mpr rfl
  | inconsistentIndentation => exact List.forall_mem_singleton.mpr rfl
  | _ => simp [formFindings]

theorem severity_issues (issues : List Issue) : ∀ f ∈ issues.map s.issueFound, f.finding.severity = .error := by
  intro f hf
  obtain ⟨issue, -, rfl⟩ := List.mem_map.mp hf
  exact severity_issueFound issue

mutual

theorem severity_issuesOf (item : Statement) : ∀ f ∈ s.issuesOf item, f.finding.severity = .error := by
  match item with
  | .line form span issues =>
    exact List.forall_mem_append.mpr ⟨severity_formFindings span form, severity_issues issues⟩
  | .bare header span issues => exact severity_issues issues
  | .block header extent items span issues =>
    exact List.forall_mem_append.mpr ⟨severity_issues issues, severity_issuesIn items⟩

theorem severity_issuesIn (items : List Statement) : ∀ f ∈ s.issuesIn items, f.finding.severity = .error := by
  match items with
  | [] => simp [issuesIn]
  | item :: rest => exact List.forall_mem_append.mpr ⟨severity_issuesOf item, severity_issuesIn rest⟩

end

/-- What reading has found is always an error. -/
theorem severity_syntaxFindings (d : Document) : ∀ f ∈ s.syntaxFindings d, f.finding.severity = .error := by
  refine List.forall_mem_append.mpr ⟨?_, severity_issuesIn d.statements⟩
  cases d.metadata with
  | none => simp
  | some fence => exact severity_issues fence.issues

theorem formFindings_eq_nil_iff (span : Span) (form : Form) :
    s.formFindings span form = [] ↔ form ≠ .erroneous ∧ form ≠ .inconsistentIndentation := by
  cases form <;> simp [formFindings]

mutual

theorem issuesOf_eq_nil_iff (item : Statement) : s.issuesOf item = [] ↔ item.Clean := by
  match item with
  | .line form span issues =>
    rw [issuesOf, List.append_eq_nil_iff, formFindings_eq_nil_iff, List.map_eq_nil_iff]
    constructor
    · rintro ⟨⟨herroneous, hindentation⟩, rfl⟩
      exact .line herroneous hindentation
    · intro h
      cases h with
      | line herroneous hindentation => exact ⟨⟨herroneous, hindentation⟩, rfl⟩
  | .bare header span issues =>
    rw [issuesOf, List.map_eq_nil_iff]
    constructor
    · rintro rfl
      exact .bare
    · intro h
      cases h
      rfl
  | .block header extent items span issues =>
    rw [issuesOf, List.append_eq_nil_iff, List.map_eq_nil_iff, issuesIn_eq_nil_iff items]
    constructor
    · rintro ⟨rfl, hitems⟩
      exact .block hitems
    · intro h
      cases h with
      | block hitems => exact ⟨rfl, hitems⟩

theorem issuesIn_eq_nil_iff (items : List Statement) : s.issuesIn items = [] ↔ ∀ item ∈ items, item.Clean := by
  match items with
  | [] => simp [issuesIn]
  | item :: rest =>
    rw [issuesIn, List.append_eq_nil_iff, issuesOf_eq_nil_iff item, issuesIn_eq_nil_iff rest,
      List.forall_mem_cons]

end

/-- Reading has found nothing exactly where the document was read without an issue. -/
theorem syntaxFindings_eq_nil_iff (d : Document) : s.syntaxFindings d = [] ↔ d.Clean := by
  obtain ⟨metadata, statements⟩ := d
  rw [syntaxFindings, List.append_eq_nil_iff, issuesIn_eq_nil_iff]
  constructor
  · rintro ⟨hmetadata, hstatements⟩
    refine ⟨?_, hstatements⟩
    rintro fence ⟨⟩
    exact List.map_eq_nil_iff.mp hmetadata
  · rintro ⟨hmetadata, hstatements⟩
    refine ⟨?_, hstatements⟩
    cases metadata with
    | none => rfl
    | some fence => exact List.map_eq_nil_iff.mpr (hmetadata fence rfl)

/-! ## Without an error -/

theorem clean_document (h : (s.analyse tabWidth).hasErrors = false) : (s.document tabWidth).Clean := by
  have hsyntax := (List.forall_mem_append.mp (clean_findings h)).1
  refine (syntaxFindings_eq_nil_iff (s := s) _).mp (List.eq_nil_iff_forall_not_mem.mpr fun f hf => ?_)
  exact hsyntax f hf (severity_syntaxFindings _ f hf)

/-- A source without an error is a manuscript. Its statements are those of a passage at the top level, with which
its tokens end. -/
theorem exists_passage (h : (s.analyse tabWidth).hasErrors = false) :
    ∃ body : Passage, body.Fits .topLevel ∧ (s.document tabWidth).statements = body.statements ∧
      body.tokens <:+ tokens s tabWidth := by
  obtain ⟨m, hm⟩ := Document.exists_manuscript (shaped_tokens s tabWidth) (clean_document h)
  have hdocument : s.document tabWidth = m.document := hm.ofLexemes_eq s.length
  rw [hdocument, ← hm.2]
  cases m with
  | plain body => exact ⟨body, hm.1, rfl, List.suffix_refl _⟩
  | fenced blanks opening stop fence body =>
    refine ⟨body, hm.1.2, rfl, ?_⟩
    exact ⟨blanks.map (mark .blankLine) ++ ⟨.symbol .fenceOpen, opening⟩ :: mark .newline stop :: fence.tokens, by
      simp [Manuscript.tokens]⟩

end BranchingStory.Source
