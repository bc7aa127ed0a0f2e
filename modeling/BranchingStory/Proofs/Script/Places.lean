import BranchingStory.Proofs.Script.Walk

/-! # Where parents stand

The place of a visit is the address of its parent in the script, so it tells the parent from all other nodes, those
that look like it included. What a walk visits at one place are siblings. -/

namespace BranchingStory
set_option autoImplicit false

/-- The nodes whose parent stands at a place; those at the top have none. -/
def Script.childrenAt (s : Script) : List Nat → List Node
  | [] => s.nodes
  | number :: place => ((s.childrenAt place)[number]?.map (·.children)).getD []

def Script.nodeAt? (s : Script) : List Nat → Option Node
  | [] => none
  | number :: place => (s.childrenAt place)[number]?

namespace Visit

/-! ## Parents -/

/-- Is the node a child of the one at the place of the visit, and is that one the parent? -/
structure Stands (s : Script) (v : Visit) : Prop where
  parent : v.parent = s.nodeAt? v.place
  child : v.node ∈ s.childrenAt v.place

section
variable {s : Script}

mutual

theorem stands_ofNode {parent : Option Node} {place : List Nat} {number : Nat} {n : Node}
    (hparent : parent = s.nodeAt? place) (hn : (s.childrenAt place)[number]? = some n) :
    ∀ v ∈ ofNode parent place number n, v.Stands s := by
  match n with
  | ⟨id, kind, guard, body, actions, children, choices, range⟩ =>
    rw [ofNode]
    refine List.forall_mem_cons.mpr ⟨⟨hparent, List.mem_of_getElem? hn⟩, ?_⟩
    have hchildren : s.childrenAt (number :: place) = [] ++ children := by rw [Script.childrenAt, hn]; rfl
    exact stands_ofSiblings [] children (hn.symm.trans (by rw [Script.nodeAt?])) hchildren rfl

theorem stands_ofSiblings {parent : Option Node} {place : List Nat} {number : Nat} (front ns : List Node)
    (hparent : parent = s.nodeAt? place) (hns : s.childrenAt place = front ++ ns) (hnumber : front.length = number) :
    ∀ v ∈ ofSiblings parent place number ns, v.Stands s := by
  match ns with
  | [] => simp [ofSiblings]
  | n :: rest =>
    rw [ofSiblings]
    refine List.forall_mem_append.mpr ⟨stands_ofNode hparent ?_, stands_ofSiblings (front ++ [n]) rest hparent ?_ ?_⟩
    · rw [hns, ← hnumber, List.getElem?_append_right (Nat.le_refl _), Nat.sub_self, List.getElem?_cons_zero]
    · rw [hns, List.append_assoc, List.singleton_append]
    · rw [List.length_append, hnumber, List.length_singleton]

end

end

/-! ## Places -/

mutual

/-- Below a node all places go on from that of the node. -/
theorem place_ofNode (parent : Option Node) (place : List Nat) (number : Nat) (n : Node) :
    ∀ v ∈ ofNode parent place number n, v = ⟨n, parent, place⟩ ∨ number :: place <:+ v.place := by
  match n with
  | ⟨id, kind, guard, body, actions, children, choices, range⟩ =>
    rw [ofNode]
    refine List.forall_mem_cons.mpr ⟨.inl rfl, fun v hv => .inr ?_⟩
    rcases place_ofSiblings _ _ _ children v hv with ⟨m, -, rfl⟩ | ⟨k, -, hsuffix⟩
    · exact List.suffix_refl _
    · exact (List.suffix_cons k _).trans hsuffix

theorem place_ofSiblings (parent : Option Node) (place : List Nat) (number : Nat) (ns : List Node) :
    ∀ v ∈ ofSiblings parent place number ns,
      (∃ n ∈ ns, v = ⟨n, parent, place⟩) ∨ ∃ k, number ≤ k ∧ k :: place <:+ v.place := by
  match ns with
  | [] => simp [ofSiblings]
  | n :: rest =>
    rw [ofSiblings]
    refine List.forall_mem_append.mpr ⟨fun v hv => ?_, fun v hv => ?_⟩
    · rcases place_ofNode parent place number n v hv with rfl | hsuffix
      · exact .inl ⟨n, List.mem_cons_self, rfl⟩
      · exact .inr ⟨number, Nat.le_refl _, hsuffix⟩
    · rcases place_ofSiblings parent place (number + 1) rest v hv with ⟨m, hm, rfl⟩ | ⟨k, hk, hsuffix⟩
      · exact .inl ⟨m, List.mem_cons_of_mem n hm, rfl⟩
      · exact .inr ⟨k, Nat.le_of_succ_le hk, hsuffix⟩

end

theorem not_cons_suffix (number : Nat) (place : List Nat) : ¬ number :: place <:+ place := fun h => by
  have hle := h.length_le
  rw [List.length_cons] at hle
  omega

theorem eq_of_cons_suffix {k number : Nat} {place deep : List Nat} (h : number :: place <:+ deep)
    (hother : k :: place <:+ deep) : number = k := by
  have hsame := (List.suffix_of_suffix_length_le h hother (Nat.le_refl _)).eq_of_length rfl
  exact (List.cons.inj hsame).1

/-! ## Siblings -/

variable {R : Node → Node → Prop}

mutual

theorem siblings_ofNode (parent : Option Node) (place : List Nat) (number : Nat) (n : Node)
    (h : n.Every fun m => m.children.Pairwise R) :
    (ofNode parent place number n).Pairwise fun v w => v.place = w.place → R v.node w.node := by
  match n with
  | ⟨id, kind, guard, body, actions, children, choices, range⟩ =>
    cases h with
    | intro here below =>
      rw [ofNode]
      refine .cons (fun w hw hplace => ?_) (siblings_ofSiblings _ _ 0 children below here)
      -- What is below a node stands at no place around it.
      rcases place_ofSiblings _ _ _ children w hw with ⟨m, -, rfl⟩ | ⟨k, -, hsuffix⟩
      · exact absurd hplace (List.cons_ne_self _ _).symm
      · rw [← hplace] at hsuffix
        exact absurd ((List.suffix_cons k _).trans hsuffix) (not_cons_suffix _ _)

/-- What holds of each two siblings holds of each two visits at one place. -/
theorem siblings_ofSiblings (parent : Option Node) (place : List Nat) (number : Nat) (ns : List Node)
    (h : ∀ n ∈ ns, n.Every fun m => m.children.Pairwise R) (hns : ns.Pairwise R) :
    (ofSiblings parent place number ns).Pairwise fun v w => v.place = w.place → R v.node w.node := by
  match ns with
  | [] => exact .nil
  | n :: rest =>
    obtain ⟨hn, hrest⟩ := List.forall_mem_cons.mp h
    obtain ⟨hfirst, hmore⟩ := List.pairwise_cons.mp hns
    rw [ofSiblings]
    refine List.pairwise_append.mpr ⟨siblings_ofNode parent place number n hn,
      siblings_ofSiblings parent place (number + 1) rest hrest hmore, fun v hv w hw hplace => ?_⟩
    rcases place_ofNode parent place number n v hv with rfl | hdeep
    · rcases place_ofSiblings parent place (number + 1) rest w hw with ⟨m, hm, rfl⟩ | ⟨k, -, hdeeper⟩
      · exact hfirst m hm
      · rw [← hplace] at hdeeper
        exact absurd hdeeper (not_cons_suffix _ _)
    · rcases place_ofSiblings parent place (number + 1) rest w hw with ⟨m, hm, rfl⟩ | ⟨k, hk, hdeeper⟩
      · rw [hplace] at hdeep
        exact absurd hdeep (not_cons_suffix _ _)
      · rw [← hplace] at hdeeper
        have hsame := eq_of_cons_suffix hdeep hdeeper
        omega

end

end Visit

namespace Script

/-- The parent of a visit is the node that stands at its place. -/
theorem stands_walk (s : Script) : ∀ v ∈ s.walk, v.Stands s :=
  Visit.stands_ofSiblings [] s.nodes rfl rfl rfl

theorem siblings_walk {R : Node → Node → Prop} {s : Script} (hnodes : s.nodes.Pairwise R)
    (h : ∀ n ∈ s.nodes, n.Every fun m => m.children.Pairwise R) :
    s.walk.Pairwise fun v w => v.place = w.place → R v.node w.node :=
  Visit.siblings_ofSiblings none [] 0 s.nodes h hnodes

end Script

end BranchingStory
