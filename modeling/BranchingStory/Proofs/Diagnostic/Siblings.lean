import BranchingStory.Diagnostic.Meaning

/-! # Names and content of siblings

When the checks of names and of content find nothing: no sibling repeats a name and no story, scene or
beat is empty, at any depth. The test below looks at the text of a node last, since it is long. -/

namespace BranchingStory.Node
set_option autoImplicit false

/-- Does the node hold something, or is it one that need not? -/
def filled (n : Node) : Bool :=
  !n.kind.isNarrative ||
    !(n.children.isEmpty && n.choices.isEmpty && n.actions.isEmpty && n.body.isEmpty)

mutual

/-- Is the node filled and named unlike its earlier siblings, and are the nodes in it so? -/
def settled (seen : List String) : Node → Bool
  | ⟨id, kind, guard, body, actions, children, choices, range⟩ =>
    (id == "" || !seen.contains id) &&
      filled ⟨id, kind, guard, body, actions, children, choices, range⟩ && allSettled [] children

/-- Are siblings settled, when those before them have the given names? -/
def allSettled (seen : List String) : List Node → Bool
  | [] => true
  | n :: rest => n.settled seen && allSettled (n.id :: seen) rest

end

theorem duplicateFindings_eq_nil_iff (parent : Option Node) (seen : List String) (n : Node) :
    n.duplicateFindings parent seen = [] ↔ (n.id == "" || !seen.contains n.id) = true := by
  rw [duplicateFindings]
  split
  · next h => simp [h]
  · next h =>
    have hname : n.id = "" ∨ n.id ∉ seen := by
      by_cases hempty : n.id = ""
      · exact .inl hempty
      · exact .inr fun hmem => h ⟨hempty, hmem⟩
    simpa using hname

theorem contentFindings_eq_nil_iff (n : Node) : n.contentFindings = [] ↔ n.filled = true := by
  have hempty :
      n.isEmpty = (n.children.isEmpty && n.choices.isEmpty && n.actions.isEmpty && n.body.isEmpty) := by
    rw [isEmpty]
    cases n.body.isEmpty <;> cases n.actions.isEmpty <;> simp
  rw [contentFindings, filled, ← hempty]
  cases n.kind.isNarrative <;> cases n.isEmpty <;> simp

mutual

theorem findings_eq_nil_iff (parent : Option Node) (seen : List String) (n : Node) :
    n.findings parent seen = [] ↔ n.settled seen = true := by
  match n with
  | ⟨id, kind, guard, body, actions, children, choices, range⟩ =>
    rw [findings, settled, List.append_eq_nil_iff, List.append_eq_nil_iff, duplicateFindings_eq_nil_iff,
      contentFindings_eq_nil_iff, siblingFindings_eq_nil_iff _ [] children, Bool.and_eq_true,
      Bool.and_eq_true]

theorem siblingFindings_eq_nil_iff (parent : Option Node) (seen : List String) (ns : List Node) :
    siblingFindings parent seen ns = [] ↔ allSettled seen ns = true := by
  match ns with
  | [] => exact iff_of_true rfl rfl
  | n :: rest =>
    rw [siblingFindings, allSettled, List.append_eq_nil_iff, findings_eq_nil_iff parent seen n,
      siblingFindings_eq_nil_iff parent _ rest, Bool.and_eq_true]

end

end BranchingStory.Node
