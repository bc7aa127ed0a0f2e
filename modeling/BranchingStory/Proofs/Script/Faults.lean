import BranchingStory.Proofs.Diagnostic.Ranges
import BranchingStory.Proofs.Document.Origins
import BranchingStory.Proofs.Script.Targets
import BranchingStory.Script.Structure

/-! # Faults of a script

Where ranges nest, only the name of a node can be at fault, and the first fault is that of the first node
without a name. In a script that is made from a document such a node comes from a declaration whose name is
absent, and reading has found that out. -/

namespace BranchingStory
open Text Token
set_option autoImplicit false

theorem Range.Within.fitsIn {text : List Char} {r outer : Range} (h : r.Within text outer) :
    r.fitsIn outer = true := by
  simp [Range.fitsIn, h.ordered, h.contained]

/-! ## Faults where ranges nest -/

namespace Choice
variable {text : List Char} {owner : Node}

theorem firstFault?_eq_none {parent : Range} {cs : List Choice} (h : ∀ c ∈ cs, c.fault? owner parent = none) :
    firstFault? owner parent cs = none := by
  induction cs with
  | nil => rfl
  | cons c rest ih =>
    obtain ⟨hc, hrest⟩ := List.forall_mem_cons.mp h
    rw [firstFault?, hc, Option.none_or, ih hrest]

theorem Nested.fault?_eq_none {c : Choice} (h : c.Nested text) {parent : Range}
    (hwithin : c.range.Within text parent) : c.fault? owner parent = none := by
  induction h generalizing parent with
  | @intro c actions choices inner ih =>
    obtain ⟨label, target, guard, acts, cs, range⟩ := c
    rw [fault?, if_pos hwithin.fitsIn]
    exact firstFault?_eq_none fun d hd => ih d hd (choices.within _ (List.mem_map_of_mem hd))

end Choice

/-- Should the node have a name, and has it none? -/
def Node.isUnnamed (n : Node) : Bool := n.kind.isNarrative && Text.trimString n.id == ""

def Visit.unnamed? (vs : List Visit) : Option StructureFault :=
  (vs.find? (·.node.isUnnamed)).map fun v => .unnamed v.node

theorem Visit.unnamed?_append (vs ws : List Visit) : unnamed? (vs ++ ws) = (unnamed? vs).or (unnamed? ws) := by
  rw [unnamed?, List.find?_append, Option.map_or]
  rfl

theorem Visit.unnamed?_ne_none_iff {vs : List Visit} :
    unnamed? vs ≠ none ↔ ∃ v ∈ vs, v.node.isUnnamed = true := by
  rw [unnamed?, ne_eq, Option.map_eq_none_iff, List.find?_eq_none]
  simp

namespace Node
variable {text : List Char}

mutual

/-- The fault of a node whose ranges nest is that of the first one without a name, itself included. -/
theorem fault?_eq_unnamed? (above : Option Node) (place : List Nat) (number : Nat) {parent : Range} (n : Node)
    (h : n.Nested text) (hwithin : n.range.Within text parent) :
    n.fault? parent = Visit.unnamed? (Visit.ofNode above place number n) := by
  match n with
  | ⟨id, kind, guard, body, actions, children, choices, range⟩ =>
    obtain ⟨-, hchoices, hchildren, hoffers, hinner⟩ := h
    rw [fault?, Visit.ofNode, Visit.unnamed?, List.find?_cons]
    by_cases hname : kind.isNarrative = true ∧ trimString id = ""
    · have hunnamed : (⟨id, kind, guard, body, actions, children, choices, range⟩ : Node).isUnnamed = true := by
        rw [isUnnamed, hname.1, hname.2]
        rfl
      rw [hunnamed, if_pos hname]
      rfl
    · have hnamed : (⟨id, kind, guard, body, actions, children, choices, range⟩ : Node).isUnnamed = false := by
        simpa [isUnnamed] using hname
      have hfits : range.fitsIn parent = true := hwithin.fitsIn
      rw [hnamed, if_neg hname, if_neg (by simp [hfits]),
        Choice.firstFault?_eq_none fun c hc =>
          (hoffers c hc).fault?_eq_none (hchoices.within _ (List.mem_map_of_mem hc)), Option.none_or]
      exact firstFault?_eq_unnamed? _ _ 0 children hinner fun m hm =>
        hchildren.within _ (List.mem_map_of_mem hm)

theorem firstFault?_eq_unnamed? (above : Option Node) (place : List Nat) (number : Nat) {parent : Range}
    (ns : List Node) (h : ∀ n ∈ ns, n.Nested text) (hwithin : ∀ n ∈ ns, n.range.Within text parent) :
    firstFault? parent ns = Visit.unnamed? (Visit.ofSiblings above place number ns) := by
  match ns with
  | [] => rfl
  | n :: rest =>
    obtain ⟨hn, hrest⟩ := List.forall_mem_cons.mp h
    obtain ⟨hwithin, hbehind⟩ := List.forall_mem_cons.mp hwithin
    rw [firstFault?, Visit.ofSiblings, Visit.unnamed?_append,
      fault?_eq_unnamed? above place number n hn hwithin,
      firstFault?_eq_unnamed? above place (number + 1) rest hrest hbehind]

end

end Node

/-! ## Without a fault -/

namespace Node

mutual

theorem every_of_fault?_eq_none (parent : Range) (n : Node) (h : n.fault? parent = none) :
    n.Every (·.isUnnamed = false) := by
  match n with
  | ⟨id, kind, guard, body, actions, children, choices, range⟩ =>
    rw [fault?] at h
    split at h
    · exact absurd h (by simp)
    · next hnamed =>
      split at h
      · exact absurd h (by simp)
      · refine .intro ?_ (every_of_firstFault?_eq_none range children (Option.or_eq_none_iff.mp h).2)
        simpa [isUnnamed] using hnamed

theorem every_of_firstFault?_eq_none (parent : Range) (ns : List Node) (h : firstFault? parent ns = none) :
    ∀ n ∈ ns, n.Every (·.isUnnamed = false) := by
  match ns with
  | [] => simp
  | n :: rest =>
    rw [firstFault?] at h
    obtain ⟨hn, hrest⟩ := Option.or_eq_none_iff.mp h
    exact List.forall_mem_cons.mpr
      ⟨every_of_fault?_eq_none parent n hn, every_of_firstFault?_eq_none parent rest hrest⟩

end

end Node

/-- In a script without a fault every node that should have a name has one. -/
theorem Script.every_of_fault?_eq_none {s : Script} (h : s.fault? = none) :
    ∀ n ∈ s.nodes, n.Every (·.isUnnamed = false) := by
  rw [Script.fault?] at h
  split at h
  · exact Node.every_of_firstFault?_eq_none s.range s.nodes h
  · exact absurd h (by simp)

/-! ## Nodes without a name -/

namespace Source
open Statement
variable {s : Source} {tabWidth : Nat}

/-- Is the node made from a declaration of the document, and is its name the one that is written there? -/
def IsDeclaredIn (d : Document) (n : Node) : Prop :=
  ∃ item ∈ trees d.statements, ∃ kind name guard, item.header? = some (.declaration kind name guard) ∧
    n.kind = kind.nodeKind ∧ n.id = (name.map (·.node)).getD ""

theorem isDeclaredIn_walk (s : Source) (tabWidth : Nat) :
    ∀ v ∈ (s.analyse tabWidth).script.walk, v.node.kind.isNarrative = true →
      IsDeclaredIn (s.document tabWidth) v.node := by
  intro v hv hnarrative
  obtain ⟨item, hitem, hmakes⟩ := s.makes_walk tabWidth v hv
  obtain ⟨hkind, -⟩ | hdeclared := hmakes.origin
  · exact absurd (hkind.symm.trans hnarrative) (by simp)
  · exact ⟨item, hitem, hdeclared⟩

/-- A name that is written is a word, so it is not blank. -/
theorem trimString_id_eq {n : Node} (h : IsDeclaredIn (s.document tabWidth) n) : trimString n.id = n.id := by
  obtain ⟨item, hitem, kind, name, guard, hheader, -, hid⟩ := h
  rw [hid]
  cases name with
  | none => rfl
  | some name =>
    have hword := (s.document_openedBy tabWidth item hitem _ hheader).named name rfl
    exact (isName_of_mem_tokens hword).trimString_eq

theorem isUnnamed_walk_iff {v : Visit} (hv : v ∈ (s.analyse tabWidth).script.walk) :
    v.node.isUnnamed = true ↔ v.node.kind.isNarrative = true ∧ v.node.id = "" := by
  rw [Node.isUnnamed, Bool.and_eq_true, beq_iff_eq]
  refine and_congr_right fun hnarrative => ?_
  rw [trimString_id_eq (isDeclaredIn_walk s tabWidth v hv hnarrative)]

/-- The only fault that a script made from a source can have is that of its first node without a name. -/
theorem fault?_eq_unnamed? (s : Source) (tabWidth : Nat) :
    (s.analyse tabWidth).script.fault? = Visit.unnamed? (s.analyse tabWidth).script.walk := by
  obtain ⟨hinOrder, hnodes⟩ := s.nodes_inOrder tabWidth
  have hordered : (s.analyse tabWidth).script.range.Ordered :=
    Nat.le_trans (Nat.le_of_eq (congrArg Span.start s.span_fullRange)) (Nat.zero_le _)
  rw [Script.fault?, if_pos hordered]
  exact Node.firstFault?_eq_unnamed? none [] 0 _ hnodes fun n hn =>
    hinOrder.within _ (List.mem_map_of_mem hn)

theorem issuesIn_eq (items : List Statement) : s.issuesIn items = items.flatMap s.issuesOf := by
  induction items with
  | nil => rfl
  | cons item rest ih => rw [issuesIn, ih, List.flatMap_cons]

/-- Every issue of a statement is found, however deep the statement stands. -/
theorem issueFound_mem {items : List Statement} {item : Statement} (hitem : item ∈ trees items) {issue : Issue}
    (hissue : issue ∈ item.issues) : s.issueFound issue ∈ s.issuesIn items := by
  have hown : ∀ item : Statement, issue ∈ item.issues → s.issueFound issue ∈ s.issuesOf item := by
    intro item hissue
    have hmem := List.mem_map_of_mem (f := s.issueFound) hissue
    cases item with
    | line form span issues => exact List.mem_append_right _ hmem
    | bare header span issues => exact hmem
    | block header extent inner span issues => exact List.mem_append_left _ hmem
  have hin : ∀ {items : List Statement} {item : Statement}, item ∈ items → s.issuesOf item ⊆ s.issuesIn items :=
    fun hitem f hf => issuesIn_eq (s := s) _ ▸ List.mem_flatMap.mpr ⟨_, hitem, hf⟩
  have hall : ∀ item ∈ trees items, s.issuesOf item ⊆ s.issuesIn items := by
    refine forall_trees (fun item hsubset inner hinner => ?_) fun item => hin
    cases item with
    | line form span issues => simp [Statement.items] at hinner
    | bare header span issues => simp [Statement.items] at hinner
    | block header extent inside span issues =>
      exact List.Subset.trans (List.Subset.trans (hin hinner) (List.subset_append_right _ _)) hsubset
  exact hall item hitem (hown item hissue)

/-- Where a node has no name, reading has found an error. -/
theorem missing_of_unnamed {v : Visit} (hv : v ∈ (s.analyse tabWidth).script.walk)
    (hnarrative : v.node.kind.isNarrative = true) (hid : v.node.id = "") :
    ∃ d ∈ (s.analyse tabWidth).diagnostics,
      d.code = "SKR002" ∧ d.message = "Missing identifier segment." ∧ d.severity = .error := by
  obtain ⟨item, hitem, kind, name, guard, hheader, -, hname⟩ := isDeclaredIn_walk s tabWidth v hv hnarrative
  have hopened := s.document_openedBy tabWidth item hitem _ hheader
  cases name with
  | none =>
    obtain ⟨offset, hissue⟩ := hopened.missing
    have hfound := issueFound_mem (s := s) hitem hissue
    refine ⟨_, List.mem_map_of_mem (List.mem_append_left _ (List.mem_append_right _ hfound)), rfl, rfl, rfl⟩
  | some name =>
    have hword := isName_of_mem_tokens (hopened.named name rfl)
    exact absurd (hname.symm.trans hid) hword.ne_empty

end Source

end BranchingStory
