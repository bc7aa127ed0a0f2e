import BranchingStory.Proofs.Script.Options
import BranchingStory.Proofs.Script.Walk

/-! # The order of a walk

A walk visits the nodes of a script that is made from a source in the order of the text: each begins behind the
beginning of those that were visited before. So no two of them have the same range. -/

namespace BranchingStory
open Token
set_option autoImplicit false

/-- Is the node not empty, and do its children lie behind its beginning, one behind the other, at every depth? -/
inductive Node.Stepped : Node → Prop
  | intro {n : Node} (full : n.range.start.offset < n.range.stop.offset)
      (inside : ∀ m ∈ n.children,
        n.range.start.offset < m.range.start.offset ∧ m.range.stop.offset ≤ n.range.stop.offset)
      (apart : n.children.Pairwise fun a b => a.range.stop.offset ≤ b.range.start.offset)
      (below : ∀ m ∈ n.children, Stepped m) : Stepped n

namespace Visit

def start (v : Visit) : Nat := v.node.range.start.offset

mutual

theorem ordered_ofNode (parent : Option Node) (place : List Nat) (number : Nat) (n : Node) (h : n.Stepped) :
    (ofNode parent place number n).Pairwise (·.start < ·.start) ∧
      ∀ v ∈ ofNode parent place number n, n.range.start.offset ≤ v.start ∧ v.start < n.range.stop.offset := by
  match n with
  | ⟨id, kind, guard, body, actions, children, choices, range⟩ =>
    cases h with
    | intro full inside apart below =>
      obtain ⟨hordered, hwithin⟩ := ordered_ofSiblings
        (some ⟨id, kind, guard, body, actions, children, choices, range⟩) (number :: place) 0 children below apart
      have hbelow : ∀ v ∈ ofSiblings (some ⟨id, kind, guard, body, actions, children, choices, range⟩)
          (number :: place) 0 children, range.start.offset < v.start ∧ v.start < range.stop.offset := by
        intro v hv
        obtain ⟨m, hm, hle, hlt⟩ := hwithin v hv
        obtain ⟨hstart, hstop⟩ := inside m hm
        exact ⟨Nat.lt_of_lt_of_le hstart hle, Nat.lt_of_lt_of_le hlt hstop⟩
      rw [ofNode]
      exact ⟨.cons (fun v hv => (hbelow v hv).1) hordered, List.forall_mem_cons.mpr
        ⟨⟨Nat.le_refl _, full⟩, fun v hv => ⟨Nat.le_of_lt (hbelow v hv).1, (hbelow v hv).2⟩⟩⟩

theorem ordered_ofSiblings (parent : Option Node) (place : List Nat) (number : Nat) (ns : List Node)
    (h : ∀ n ∈ ns, n.Stepped) (hapart : ns.Pairwise fun a b => a.range.stop.offset ≤ b.range.start.offset) :
    (ofSiblings parent place number ns).Pairwise (·.start < ·.start) ∧
      ∀ v ∈ ofSiblings parent place number ns,
        ∃ n ∈ ns, n.range.start.offset ≤ v.start ∧ v.start < n.range.stop.offset := by
  match ns with
  | [] => simp [ofSiblings]
  | n :: rest =>
    obtain ⟨hn, hrest⟩ := List.forall_mem_cons.mp h
    obtain ⟨hbehind, hapart⟩ := List.pairwise_cons.mp hapart
    obtain ⟨hordered, hwithin⟩ := ordered_ofNode parent place number n hn
    obtain ⟨hordered', hwithin'⟩ := ordered_ofSiblings parent place (number + 1) rest hrest hapart
    rw [ofSiblings]
    refine ⟨List.pairwise_append.mpr ⟨hordered, hordered', fun v hv u hu => ?_⟩,
      List.forall_mem_append.mpr ⟨fun v hv => ⟨n, List.mem_cons_self, hwithin v hv⟩, fun v hv => ?_⟩⟩
    · obtain ⟨m, hm, hle, -⟩ := hwithin' u hu
      exact Nat.lt_of_lt_of_le (hwithin v hv).2 (Nat.le_trans (hbehind m hm) hle)
    · obtain ⟨m, hm, hbounds⟩ := hwithin' v hv
      exact ⟨m, List.mem_cons_of_mem n hm, hbounds⟩

end

end Visit

namespace Source
open Statement
variable {s : Source} {tabWidth : Nat}

theorem stepped_nodes (s : Source) (tabWidth : Nat) : ∀ n ∈ (s.analyse tabWidth).script.nodes, n.Stepped := by
  refine nodes_all mem_trees_items ?_ .topLevel fun item hitem => mem_trees hitem
  intro item n hitem hmakes hchildren
  have hdeep := s.document_deep tabWidth item hitem hmakes.stands
  have hrange : n.range.span = item.span := by
    rw [hmakes.range, span_range (s.encloses_trees tabWidth item hitem).fits]
  have hstart : n.range.start.offset = item.span.start := congrArg Span.start hrange
  have hstop : n.range.stop.offset = item.span.stop := congrArg Span.stop hrange
  obtain ⟨lo, hlo, hparts⟩ : ∃ lo, n.range.start.offset < lo ∧
      Parts s.text (·.range) lo n.range.stop.offset n.children := by
    rw [hstart, hstop]
    rcases hmakes.children with hnil | ⟨inside, heq⟩
    · exact ⟨item.span.stop, hdeep.start_lt_stop, by rw [hnil]; exact Nat.le_refl _⟩
    · exact ⟨item.span.start + 1, Nat.lt_succ_self _, heq ▸ nodes_parts hdeep.body inside⟩
  refine .intro (by rw [hstart, hstop]; exact hdeep.start_lt_stop) (fun m hm => ?_)
    (List.pairwise_map.mp hparts.apart) hchildren
  have hbetween := hparts.between.2 m hm
  exact ⟨Nat.lt_of_lt_of_le hlo hbetween.lo_le, hbetween.le_hi⟩

/-- The nodes of a walk begin one behind the other. -/
theorem walk_ordered (s : Source) (tabWidth : Nat) :
    (s.analyse tabWidth).script.walk.Pairwise (·.start < ·.start) := by
  have hparts := nodes_parts (s.document_placed tabWidth).1 .topLevel
  exact (Visit.ordered_ofSiblings none [] 0 _ (s.stepped_nodes tabWidth) (List.pairwise_map.mp hparts.apart)).1

end Source

end BranchingStory
