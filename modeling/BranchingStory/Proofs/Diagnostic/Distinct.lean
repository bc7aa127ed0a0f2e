import BranchingStory.Proofs.Diagnostic.Siblings
import BranchingStory.Proofs.Script.Walk

/-! # Scripts with distinct names

Where no name is given twice and nothing is empty, the checks of names and of content find nothing. -/

namespace BranchingStory
set_option autoImplicit false

namespace Visit

def names (vs : List Visit) : List String := vs.map (·.node.id)

theorem id_mem_names {vs : List Visit} {v : Visit} (h : v ∈ vs) : v.node.id ∈ names vs := List.mem_map_of_mem h

theorem names_append (vs ws : List Visit) : names (vs ++ ws) = names vs ++ names ws := List.map_append

end Visit

namespace Node
open Visit

mutual

theorem settled_of_nodup (parent : Option Node) (place : List Nat) (number : Nat) (n : Node) {seen : List String}
    (hnames : (names (ofNode parent place number n)).Nodup) (hseen : n.id ∉ seen)
    (hfilled : ∀ v ∈ ofNode parent place number n, v.node.filled = true) : n.settled seen = true := by
  match n with
  | ⟨id, kind, guard, body, actions, children, choices, range⟩ =>
    obtain ⟨hhere, hbelow⟩ := List.forall_mem_cons.mp hfilled
    have hchildren : allSettled [] children = true :=
      allSettled_of_nodup _ _ _ children (List.nodup_cons.mp hnames).2 (by simp) hbelow
    have hname : seen.contains id = false := by simpa using hseen
    rw [settled, hname, hchildren, Bool.and_true]
    simpa using hhere

theorem allSettled_of_nodup (parent : Option Node) (place : List Nat) (number : Nat) (ns : List Node)
    {seen : List String} (hnames : (names (ofSiblings parent place number ns)).Nodup)
    (hseen : ∀ name ∈ names (ofSiblings parent place number ns), name ∉ seen)
    (hfilled : ∀ v ∈ ofSiblings parent place number ns, v.node.filled = true) : allSettled seen ns = true := by
  match ns with
  | [] => rfl
  | n :: rest =>
    rw [ofSiblings, names_append] at hnames hseen
    obtain ⟨hn, hrest, hdisjoint⟩ := List.nodup_append.mp hnames
    obtain ⟨hseen, hlater⟩ := List.forall_mem_append.mp hseen
    obtain ⟨hfilled, hmore⟩ := List.forall_mem_append.mp hfilled
    obtain ⟨v, hv, hnode⟩ := exists_ofNode parent place number n
    have hid : n.id ∈ names (ofNode parent place number n) := by
      have hmem := id_mem_names hv
      rwa [hnode] at hmem
    rw [allSettled, settled_of_nodup parent place number n hn (hseen _ hid) hfilled, Bool.true_and]
    refine allSettled_of_nodup parent place (number + 1) rest hrest (fun name hname hmem => ?_) hmore
    rcases List.mem_cons.mp hmem with rfl | hmem
    · exact hdisjoint _ hid _ hname rfl
    · exact hlater name hname hmem

end

end Node

namespace Visit

theorem collisions_of_nodup {earlier vs : List Visit} (hnames : (names vs).Nodup)
    (hearlier : ∀ name ∈ names vs, name ∉ names earlier) : collisions earlier vs = [] := by
  induction vs generalizing earlier with
  | nil => rfl
  | cons v vs ih =>
    obtain ⟨hv, hvs⟩ := List.nodup_cons.mp hnames
    obtain ⟨hfirst, hmore⟩ := List.forall_mem_cons.mp hearlier
    have hnone : earlier.find? (·.node.id == v.node.id) = none := by
      refine List.find?_eq_none.mpr fun e he heq => hfirst ?_
      have hid : e.node.id = v.node.id := beq_iff_eq.mp heq
      exact List.mem_map.mpr ⟨e, he, hid⟩
    have hrest : collisions (v :: earlier) vs = [] := by
      refine ih hvs fun name hname hmem => ?_
      rcases List.mem_cons.mp hmem with rfl | hmem
      · exact hv hname
      · exact hmore name hname hmem
    rw [collisions, collision, hnone, hrest]
    rfl

end Visit

/-- Nothing is found in names and content where all names are distinct and all nodes filled. -/
theorem Script.findings_of_nodup {s : Script} (hnames : (Visit.names s.walk).Nodup)
    (hfilled : ∀ v ∈ s.walk, v.node.filled = true) :
    Node.siblingFindings none [] s.nodes = [] ∧ s.collisionFindings = [] := by
  refine ⟨(Node.siblingFindings_eq_nil_iff _ _ _).mpr ?_, Visit.collisions_of_nodup ?_ (by simp [Visit.names])⟩
  · exact Node.allSettled_of_nodup none [] 0 s.nodes hnames (by simp) hfilled
  · exact (List.filter_sublist.map _).nodup hnames

end BranchingStory
