import BranchingStory.Analysis
import BranchingStory.Proofs.Diagnostic.Siblings
import BranchingStory.Proofs.Script.Making
import BranchingStory.Proofs.Script.Stored
import BranchingStory.Proofs.Source.Lines
import Mathlib.Algebra.Group.Nat.Defs

/-! # Loading what was built

Every range of a script that was made from a source is a range of that source, so its numbers are
exact. What is left to decide whether the stored script can be loaded is how deeply its document nests. -/

namespace BranchingStory
set_option autoImplicit false
open Json

/-! ## Exact numbers -/

theorem Position.exact_toJson {p : Position} (hoffset : p.offset < 2 ^ 64) (hline : p.line < 2 ^ 64)
    (hcolumn : p.column < 2 ^ 64) : p.toJson.exact := by
  have hnatural : ∀ n, n < 2 ^ 64 → (Json.natural n).exact := fun n hn => by simpa [exact] using hn
  rw [toJson_eq, exact_objectOf]
  simp only [List.forall_mem_cons, Option.mem_some_iff, forall_eq']
  exact ⟨hnatural _ hoffset, hnatural _ hline, hnatural _ hcolumn, by simp⟩

theorem Action.exact_toJson {a : Action} (h : a.range.toJson.exact) : a.toJson.exact :=
  ((a.fits_iff a.range.toJson.depth).mpr ⟨Nat.le_refl _, h⟩).2

theorem Json.exact_optional {s : Option String} {j : Json} (h : j ∈ s.map Json.string) : j.exact :=
  (fits_optional 0 s j h).2

theorem Choice.exact_toJson_iff {c : Choice} :
    c.toJson.exact ↔
      (∀ a ∈ c.actions, a.toJson.exact) ∧ (∀ d ∈ c.choices, d.toJson.exact) ∧ c.range.toJson.exact := by
  obtain ⟨label, target, guard, actions, choices, range⟩ := c
  rw [toJson, exact_objectOf, listToJson_eq]
  simp only [List.forall_mem_cons, Option.mem_some_iff, forall_eq', exact_array, List.forall_mem_map]
  constructor
  · rintro ⟨-, -, -, hactions, hchoices, hrange, -⟩
    exact ⟨hactions, hchoices, hrange⟩
  · rintro ⟨hactions, hchoices, hrange⟩
    exact ⟨rfl, fun _ => exact_optional, fun _ => exact_optional, hactions, hchoices, hrange, by simp⟩

theorem Node.exact_toJson_iff {n : Node} :
    n.toJson.exact ↔
      (∀ a ∈ n.actions, a.toJson.exact) ∧ (∀ m ∈ n.children, m.toJson.exact) ∧
        (∀ c ∈ n.choices, c.toJson.exact) ∧ n.range.toJson.exact := by
  obtain ⟨id, kind, guard, body, actions, children, choices, range⟩ := n
  rw [toJson, exact_objectOf, listToJson_eq, Choice.listToJson_eq]
  simp only [List.forall_mem_cons, Option.mem_some_iff, forall_eq', exact_array, List.forall_mem_map]
  constructor
  · rintro ⟨-, -, -, -, hactions, hchildren, hchoices, hrange, -⟩
    exact ⟨hactions, hchildren, hchoices, hrange⟩
  · rintro ⟨hactions, hchildren, hchoices, hrange⟩
    exact ⟨rfl, rfl, fun _ => exact_optional, rfl, hactions, hchildren, hchoices, hrange, by simp⟩

theorem Script.exact_toJson_iff {s : Script} :
    s.toJson.exact ↔ (∀ n ∈ s.nodes, n.toJson.exact) ∧ s.range.toJson.exact := by
  have hmetadata : exactFields (s.metadata.entries.map fun entry => (entry.1, Json.string entry.2)) := by
    rw [exactFields_iff, List.forall_mem_map]
    exact fun _ _ => rfl
  rw [toJson, exact, exactFields_iff, Node.listToJson_eq]
  simp only [List.forall_mem_cons, exact_array, List.forall_mem_map]
  constructor
  · rintro ⟨-, -, hnodes, hrange, -⟩
    exact ⟨hnodes, hrange⟩
  · rintro ⟨hnodes, hrange⟩
    exact ⟨rfl, hmetadata, hnodes, hrange, by simp⟩

/-! ## Scripts of a source -/

namespace Source
variable {s : Source}

theorem exact_range (hlength : s.length < 2 ^ 63) (span : Span) : (s.range span).toJson.exact := by
  have hindex : s.index = LineIndex.ofSource s.text := s.index_eq
  have hposition : ∀ offset, (s.index.position offset).toJson.exact := by
    intro offset
    have hmin : (s.index.position offset).offset ≤ s.length := Nat.min_le_right _ _
    have hline := LineIndex.position_line_le s.text offset
    have hcolumn := LineIndex.position_column_le s.text offset
    rw [← hindex, ← s.length_eq] at hline hcolumn
    exact Position.exact_toJson (by omega) (by omega) (by omega)
  rw [Range.toJson_eq, exact_objectOf]
  simp only [List.forall_mem_cons, Option.mem_some_iff, forall_eq']
  exact ⟨hposition _, hposition _, by simp⟩

theorem exact_actions (hlength : s.length < 2 ^ 63) (items : List Statement) :
    ∀ a ∈ s.actions items, a.toJson.exact := by
  intro a ha
  obtain ⟨item, -, haction⟩ := List.mem_filterMap.mp ha
  obtain ⟨-, hrange⟩ := action?_cases haction
  refine Action.exact_toJson ?_
  rw [hrange]
  exact exact_range hlength item.span

theorem exact_choices (hlength : s.length < 2 ^ 63) (items : List Statement) :
    ∀ c ∈ s.choices items, c.toJson.exact := by
  refine choices_all (P := fun _ => True) (fun _ _ _ _ => trivial) ?_ fun _ _ => trivial
  intro outer item label guard target _ _ hchoices
  exact Choice.exact_toJson_iff.mpr ⟨exact_actions hlength item.items, hchoices, exact_range hlength item.span⟩

theorem exact_nodes (hlength : s.length < 2 ^ 63) (place : Place) (items : List Statement) :
    ∀ n ∈ s.nodes place items, n.toJson.exact := by
  refine nodes_all (P := fun _ => True) (fun _ _ _ _ => trivial) ?_ place fun _ _ => trivial
  intro item n _ hmakes hchildren
  have hactions := hmakes.forall_actions (exact_actions hlength item.items)
  have hchoices := hmakes.forall_choices (exact_choices hlength item.items)
  have hrange : n.range.toJson.exact := by
    rw [hmakes.range]
    exact exact_range hlength item.span
  exact Node.exact_toJson_iff.mpr ⟨hactions, hchildren, hchoices, hrange⟩

theorem exact_script (hlength : s.length < 2 ^ 63) (tabWidth : Nat) :
    (s.analyse tabWidth).script.toJson.exact :=
  Script.exact_toJson_iff.mpr ⟨exact_nodes hlength .topLevel _, exact_range hlength _⟩

/-- The script that is built from a source is loaded again as it was, if its document nests no deeper than
a document may that is read; otherwise it cannot be loaded. A text in memory has fewer than `2 ^ 63`
bytes. -/
theorem load?_store_script (s : Source) (tabWidth : Nat) (hlength : s.length < 2 ^ 63) :
    Script.load? (s.analyse tabWidth).script.store =
      if (s.analyse tabWidth).script.toJson.depth ≤ maxDepth then some (s.analyse tabWidth).script
      else none := by
  have hexact := exact_script hlength tabWidth
  split
  · next hdepth => exact (Script.load?_store _ _).mpr ⟨rfl, hdepth, hexact⟩
  · next hdeep =>
    refine Option.eq_none_iff_forall_ne_some.mpr fun t ht => ?_
    exact hdeep ((Script.load?_store _ t).mp ht).2.1

theorem load?_store_script_goto : (ofString "beat here:\n goto here").length < 2 ^ 63 ∧
    Script.load? ((ofString "beat here:\n goto here").analyse 8).script.store =
      some ((ofString "beat here:\n goto here").analyse 8).script := by
  have hlength : (ofString "beat here:\n goto here").length < 2 ^ 63 := by decide +kernel
  have hdepth : ((ofString "beat here:\n goto here").analyse 8).script.toJson.depth ≤ maxDepth := by
    decide +kernel
  refine ⟨hlength, ?_⟩
  rw [load?_store_script _ _ hlength, if_pos hdepth]

/-! ## A story that is too deep -/

/-- A line at an indentation, with a tab for every eight columns. -/
def indented (width : Nat) (text : String) : List Char :=
  List.replicate (width / 8) '\t' ++ List.replicate (width % 8) ' ' ++ text.toList ++ ['\n']

/-- Options in the bodies of options, and the end of the story in the innermost one. -/
def nestedOptions (width : Nat) : Nat → List Char
  | 0 => indented width "end"
  | n + 1 =>
    indented width "choice:" ++ indented (width + 1) "option\"\":" ++ nestedOptions (width + 2) n

/-- A story with 59 options inside each other. -/
def cave : Source where
  text := indented 0 "story s:" ++ indented 1 "scene a:" ++ indented 2 "beat x:" ++ nestedOptions 3 59

/-- There is nothing to say against the story, and yet it cannot be loaded once it is built. -/
theorem load?_store_cave :
    (cave.analyse 8).hasErrors = false ∧
      Script.load? (cave.analyse 8).script.store ≠ some (cave.analyse 8).script := by
  have hall : (cave.syntaxFindings (cave.document 8)).isEmpty ∧
      Node.allSettled [] (cave.script (cave.document 8)).nodes ∧
      (cave.script (cave.document 8)).collisionFindings.isEmpty ∧
      (cave.usesFindings (cave.script (cave.document 8)).targets false (cave.document 8).statements).isEmpty ∧
      maxDepth < (cave.script (cave.document 8)).toJson.depth := by decide +kernel
  obtain ⟨hissues, hsettled, hcollision, huses, hdepth⟩ := hall
  have hdiagnostics : (cave.analyse 8).diagnostics = [] := by
    rw [analyse, findings, meaningFindings, List.isEmpty_iff.mp hissues, List.isEmpty_iff.mp hcollision,
      List.isEmpty_iff.mp huses, (Node.siblingFindings_eq_nil_iff _ _ _).mpr hsettled]
    rfl
  refine ⟨by rw [Analysis.hasErrors, hdiagnostics]; rfl, fun hload => ?_⟩
  have hfits := ((Script.load?_store _ _).mp hload).2.1
  exact absurd hfits (Nat.not_le_of_lt hdepth)

end Source

end BranchingStory
