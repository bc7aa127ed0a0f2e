import BranchingStory.Analysis
import BranchingStory.Proofs.Document.Trees
import BranchingStory.Proofs.Script.Making

/-! # Walking over nodes

What holds of a node and of all below it holds wherever a walk comes, and the checks of names and of content
speak about nothing else. -/

namespace BranchingStory
set_option autoImplicit false

/-- Does `R` hold of the node and of all nodes below it? -/
inductive Node.Every (R : Node → Prop) : Node → Prop
  | intro {n : Node} (here : R n) (below : ∀ m ∈ n.children, Every R m) : Every R n

namespace Visit
variable {R : Node → Prop}

mutual

theorem forall_ofNode (parent : Option Node) (place : List Nat) (number : Nat) (n : Node) (h : n.Every R) :
    ∀ v ∈ ofNode parent place number n, R v.node := by
  match n with
  | ⟨id, kind, guard, body, actions, children, choices, range⟩ =>
    cases h with
    | intro here below =>
      rw [ofNode]
      exact List.forall_mem_cons.mpr ⟨here, forall_ofSiblings _ _ _ children below⟩

theorem forall_ofSiblings (parent : Option Node) (place : List Nat) (number : Nat) (ns : List Node)
    (h : ∀ n ∈ ns, n.Every R) : ∀ v ∈ ofSiblings parent place number ns, R v.node := by
  match ns with
  | [] => simp [ofSiblings]
  | n :: rest =>
    obtain ⟨hn, hrest⟩ := List.forall_mem_cons.mp h
    rw [ofSiblings]
    exact List.forall_mem_append.mpr
      ⟨forall_ofNode parent place number n hn, forall_ofSiblings parent place (number + 1) rest hrest⟩

end

end Visit

theorem Script.forall_walk {R : Node → Prop} {s : Script} (h : ∀ n ∈ s.nodes, n.Every R) :
    ∀ v ∈ s.walk, R v.node :=
  Visit.forall_ofSiblings none [] 0 s.nodes h

mutual

theorem Node.every_of_hereditary {R : Node → Prop} (hchildren : ∀ n, R n → ∀ m ∈ n.children, R m) (n : Node)
    (h : R n) : n.Every R := by
  match n with
  | ⟨id, kind, guard, body, actions, children, choices, range⟩ =>
    exact .intro h (Node.every_children_of_hereditary hchildren children (hchildren _ h))

theorem Node.every_children_of_hereditary {R : Node → Prop} (hchildren : ∀ n, R n → ∀ m ∈ n.children, R m)
    (ns : List Node) (h : ∀ n ∈ ns, R n) : ∀ n ∈ ns, n.Every R := by
  match ns with
  | [] => simp
  | n :: rest =>
    obtain ⟨hn, hrest⟩ := List.forall_mem_cons.mp h
    exact List.forall_mem_cons.mpr ⟨Node.every_of_hereditary hchildren n hn,
      Node.every_children_of_hereditary hchildren rest hrest⟩

end

/-- What passes from a node to its children holds wherever a walk comes if it holds where the walk begins. -/
theorem Script.forall_walk_of_hereditary {R : Node → Prop} (hchildren : ∀ n, R n → ∀ m ∈ n.children, R m)
    {s : Script} (h : ∀ n ∈ s.nodes, R n) : ∀ v ∈ s.walk, R v.node :=
  Script.forall_walk (Node.every_children_of_hereditary hchildren s.nodes h)

namespace Visit

theorem exists_ofNode (parent : Option Node) (place : List Nat) (number : Nat) (n : Node) :
    ∃ v ∈ ofNode parent place number n, v.node = n := by
  obtain ⟨id, kind, guard, body, actions, children, choices, range⟩ := n
  exact ⟨_, List.mem_cons_self, rfl⟩

theorem exists_ofSiblings (parent : Option Node) (place : List Nat) (number : Nat) (ns : List Node) :
    ∀ n ∈ ns, ∃ v ∈ ofSiblings parent place number ns, v.node = n := by
  induction ns generalizing number with
  | nil => simp
  | cons n rest ih =>
    intro m hm
    rcases List.mem_cons.mp hm with rfl | hm
    · obtain ⟨v, hv, hnode⟩ := exists_ofNode parent place number m
      exact ⟨v, List.mem_append_left _ hv, hnode⟩
    · obtain ⟨v, hv, hnode⟩ := ih (number + 1) m hm
      exact ⟨v, List.mem_append_right _ hv, hnode⟩

mutual

theorem exists_child_ofNode (parent : Option Node) (place : List Nat) (number : Nat) (n : Node) :
    ∀ v ∈ ofNode parent place number n, ∀ m ∈ v.node.children,
      ∃ w ∈ ofNode parent place number n, w.node = m := by
  match n with
  | ⟨id, kind, guard, body, actions, children, choices, range⟩ =>
    rw [ofNode]
    refine List.forall_mem_cons.mpr ⟨fun m hm => ?_, fun v hv m hm => ?_⟩
    · obtain ⟨w, hw, hnode⟩ := exists_ofSiblings _ _ 0 children m hm
      exact ⟨w, List.mem_cons_of_mem _ hw, hnode⟩
    · obtain ⟨w, hw, hnode⟩ := exists_child_ofSiblings _ _ 0 children v hv m hm
      exact ⟨w, List.mem_cons_of_mem _ hw, hnode⟩

theorem exists_child_ofSiblings (parent : Option Node) (place : List Nat) (number : Nat) (ns : List Node) :
    ∀ v ∈ ofSiblings parent place number ns, ∀ m ∈ v.node.children,
      ∃ w ∈ ofSiblings parent place number ns, w.node = m := by
  match ns with
  | [] => simp [ofSiblings]
  | n :: rest =>
    rw [ofSiblings]
    refine List.forall_mem_append.mpr ⟨fun v hv m hm => ?_, fun v hv m hm => ?_⟩
    · obtain ⟨w, hw, hnode⟩ := exists_child_ofNode parent place number n v hv m hm
      exact ⟨w, List.mem_append_left _ hw, hnode⟩
    · obtain ⟨w, hw, hnode⟩ := exists_child_ofSiblings parent place (number + 1) rest v hv m hm
      exact ⟨w, List.mem_append_right _ hw, hnode⟩

end

end Visit

/-- A walk visits every node, and the children of each node that it visits. -/
theorem Script.exists_visit {s : Script} {n : Node} (h : n ∈ s.nodes) : ∃ v ∈ s.walk, v.node = n :=
  Visit.exists_ofSiblings none [] 0 s.nodes n h

theorem Script.exists_visit_child {s : Script} {v : Visit} (h : v ∈ s.walk) {m : Node}
    (hm : m ∈ v.node.children) : ∃ w ∈ s.walk, w.node = m :=
  Visit.exists_child_ofSiblings none [] 0 s.nodes v h m hm

/-- Every node that a walk comes to is made from a statement of the document. -/
theorem Source.makes_walk (s : Source) (tabWidth : Nat) :
    ∀ v ∈ (s.analyse tabWidth).script.walk,
      ∃ item ∈ Statement.trees (s.document tabWidth).statements, s.Makes item v.node := by
  have hnodes : ∀ n ∈ (s.analyse tabWidth).script.nodes, n.Every fun m =>
      ∃ item ∈ Statement.trees (s.document tabWidth).statements, s.Makes item m := by
    refine nodes_all Statement.mem_trees_items ?_ .topLevel fun item hitem => Statement.mem_trees hitem
    exact fun item n hitem hmakes hchildren => .intro ⟨item, hitem, hmakes⟩ hchildren
  exact Script.forall_walk hnodes

/-! ## Findings about nodes -/

namespace Node

mutual

theorem range_of_findings (parent : Option Node) (seen : List String) (place : List Nat) (number : Nat)
    (n : Node) :
    ∀ f ∈ n.findings parent seen, ∃ v ∈ Visit.ofNode parent place number n, f.range = v.node.range := by
  match n with
  | ⟨id, kind, guard, body, actions, children, choices, range⟩ =>
    intro f hf
    rw [findings] at hf
    rw [Visit.ofNode]
    rcases List.mem_append.mp hf with hf | hf
    · refine ⟨_, List.mem_cons_self, ?_⟩
      rcases List.mem_append.mp hf with hf | hf
      · rw [duplicateFindings] at hf
        split at hf
        · rw [List.mem_singleton.mp hf]
        · simp at hf
      · rw [contentFindings] at hf
        split at hf
        · rw [List.mem_singleton.mp hf]
        · simp at hf
    · obtain ⟨v, hv, heq⟩ := range_of_siblingFindings _ _ (number :: place) 0 children f hf
      exact ⟨v, List.mem_cons_of_mem _ hv, heq⟩

theorem range_of_siblingFindings (parent : Option Node) (seen : List String) (place : List Nat)
    (number : Nat) (ns : List Node) :
    ∀ f ∈ siblingFindings parent seen ns, ∃ v ∈ Visit.ofSiblings parent place number ns,
      f.range = v.node.range := by
  match ns with
  | [] => simp [siblingFindings]
  | n :: rest =>
    intro f hf
    rw [siblingFindings] at hf
    rw [Visit.ofSiblings]
    rcases List.mem_append.mp hf with hf | hf
    · obtain ⟨v, hv, heq⟩ := range_of_findings parent seen place number n f hf
      exact ⟨v, List.mem_append_left _ hv, heq⟩
    · obtain ⟨v, hv, heq⟩ := range_of_siblingFindings parent _ place (number + 1) rest f hf
      exact ⟨v, List.mem_append_right _ hv, heq⟩

end

end Node

theorem Visit.range_of_collisions (earlier vs : List Visit) :
    ∀ f ∈ Visit.collisions earlier vs, ∃ v ∈ vs, f.range = v.node.range := by
  induction vs generalizing earlier with
  | nil => simp [collisions]
  | cons v rest ih =>
    intro f hf
    rw [collisions] at hf
    rcases List.mem_append.mp hf with hf | hf
    · refine ⟨v, List.mem_cons_self, ?_⟩
      rw [collision] at hf
      split at hf
      · split at hf
        · simp at hf
        · rw [List.mem_singleton.mp hf]
      · simp at hf
    · obtain ⟨w, hw, heq⟩ := ih (v :: earlier) f hf
      exact ⟨w, List.mem_cons_of_mem _ hw, heq⟩

end BranchingStory
