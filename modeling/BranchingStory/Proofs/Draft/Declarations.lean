import BranchingStory.Proofs.Diagnostic.Distinct
import BranchingStory.Proofs.Draft.Bodies
import BranchingStory.Proofs.Script.Walk

/-! # Reading declarations of a draft

If what stands in declarations is read as it was drafted, the declarations are. The same holds for beats,
scenes and the story. -/

namespace BranchingStory
open Text Token Grammar
set_option autoImplicit false

namespace Source
variable {s : Source} {targets : List String} {place : Place} {items inside : List Statement} {extent span : Span}

theorem Gives.declaration {kind : DeclarationKind} {name : Name} {id body : String} {inBeat : Bool}
    {c : Draft.Contents} {children : List Node} (hplace : place ≠ .choice) (hname : name.node = id)
    (hopens : opensBeat (.declaration kind (some name) none) = inBeat) (hbody : s.excerpt extent = body)
    (hinside : s.Gives targets .narrative inBeat inside c) (h : s.Gives targets place false items { children }) :
    s.Gives targets place false (.block (.declaration kind (some name) none) extent inside span [] :: items)
      { children := ⟨id, kind.nodeKind, none, body, c.actions, c.children, c.choices, s.range span⟩ :: children } where
  actions := h.actions
  children := by
    have hnode : s.nodeOf place (.block (.declaration kind (some name) none) extent inside span []) =
        [⟨id, kind.nodeKind, none, body, c.actions, c.children, c.choices, s.range span⟩] := by
      rw [nodeOf, if_neg (fun hchoice => hplace hchoice.1), hinside.actions, hinside.children, hinside.choices,
        hbody, leafNode, Option.map_some, hname]
      rfl
    rw [nodes, hnode]
    exact congrArg _ h.children
  choices := h.choices
  findings := by
    rw [usesFindings, useFindings, hopens, h.findings, Bool.false_or, hinside.findings]
    rfl

end Source

namespace Draft
variable {s : Source} {targets : List String}

/-- Is the outline read as these contents, wherever it stands in the source? -/
structure Readable (s : Source) (targets : List String) (place : Source.Place) (context : Context) (inBeat : Bool)
    (o : Outline) (contents : Nat → Nat → Contents) : Prop where
  proper : o.Proper
  ne_done : o ≠ .done
  exists_items : ∀ behind offset width, s.Holds offset (o.text width) → ∃ items,
    o.Reads context behind offset width items ∧ s.Gives targets place inBeat items (contents offset width)

namespace Part
variable {α : Type} {kind : DeclarationKind} {place : Source.Place} {context : Context} {inBeat : Bool}
  {inside : α → Outline} {contents : α → Nat → Nat → Contents}

theorem apart_row (kind : DeclarationKind) (p : Part α) : (p.row kind).Apart := by
  refine apart_heading (writable_word ?_) (List.forall_mem_singleton.mpr p.name.writable) ?_
  · cases kind <;> decide
  · rintro u ⟨⟩
    simp [Identifier.token]

theorem proper_outline {ps : List (Part α)}
    (h : ∀ p ∈ ps, Readable s targets .narrative kind.context inBeat (inside p.content) (contents p.content)) :
    (outline kind inside ps).Proper := by
  induction ps with
  | nil => trivial
  | cons p ps ih =>
    obtain ⟨hp, hps⟩ := List.forall_mem_cons.mp h
    exact ⟨p.apart_row kind, hp.ne_done, hp.proper, ih hps⟩

theorem exists_items (hallowed : context.allows (.declaration kind) = true) (hplace : place ≠ .choice)
    (hopens : ∀ name, Source.opensBeat (.declaration kind name none) = inBeat) {ps : List (Part α)}
    (h : ∀ p ∈ ps, Readable s targets .narrative kind.context inBeat (inside p.content) (contents p.content))
    (behind offset width : Nat) (hholds : s.Holds offset ((outline kind inside ps).text width)) :
    ∃ items, (outline kind inside ps).Reads context behind offset width items ∧
      s.Gives targets place false items { children := nodes s kind inside contents offset width ps } := by
  induction ps generalizing offset with
  | nil => exact ⟨[], .done, .nil⟩
  | cons p ps ih =>
    obtain ⟨hp, hps⟩ := List.forall_mem_cons.mp h
    rw [outline, Outline.text_block] at hholds
    obtain ⟨name, hname, hline⟩ := exists_partLine hallowed p
    obtain ⟨body, hbody, hcontents⟩ := hp.exists_items _ _ _ hholds.rest.front
    obtain ⟨items, hitems, hgives⟩ := ih hps _ hholds.rest.rest
    have hexcerpt := hholds.rest.front.excerpt_outline hp.ne_done
    refine ⟨_, hbody.block hp.proper hp.ne_done rfl rfl hline hitems, ?_⟩
    rw [nodes, Source.written_append]
    exact .declaration hplace hname (hopens _) hexcerpt hcontents hgives

theorem readable (hallowed : context.allows (.declaration kind) = true) (hplace : place ≠ .choice)
    (hopens : ∀ name, Source.opensBeat (.declaration kind name none) = inBeat) {ps : List (Part α)} (hne : ps ≠ [])
    (h : ∀ p ∈ ps, Readable s targets .narrative kind.context inBeat (inside p.content) (contents p.content)) :
    Readable s targets place context false (outline kind inside ps) fun offset width =>
      { children := nodes s kind inside contents offset width ps } where
  proper := proper_outline h
  ne_done := by
    obtain ⟨p, rest, rfl⟩ := List.exists_cons_of_ne_nil hne
    simp [outline]
  exists_items behind offset width := exists_items hallowed hplace hopens h behind offset width

/-- The names of declarations and of those in them, in the order of the text. -/
theorem names_nodes (below : α → List String) {ps : List (Part α)} (parent : Option Node) (route : List Nat)
    (number offset width : Nat)
    (h : ∀ p ∈ ps, ∀ parent route number offset width,
      Visit.names (Visit.ofSiblings parent route number (contents p.content offset width).children) = below p.content) :
    Visit.names (Visit.ofSiblings parent route number (nodes s kind inside contents offset width ps)) =
      ps.flatMap fun p => p.name.name :: below p.content := by
  induction ps generalizing number offset with
  | nil => rfl
  | cons p ps ih =>
    obtain ⟨hp, hps⟩ := List.forall_mem_cons.mp h
    rw [nodes, Visit.ofSiblings, Visit.names_append, ih _ _ hps, Visit.ofNode, List.flatMap_cons]
    exact congrArg (_ :: · ++ _) (hp _ _ _ _ _)

theorem filled_nodes {ps : List (Part α)} (offset width : Nat)
    (hproper : ∀ p ∈ ps, (inside p.content).Proper ∧ inside p.content ≠ .done)
    (h : ∀ p ∈ ps, ∀ offset width, ∀ n ∈ (contents p.content offset width).children, n.Every (·.filled = true)) :
    ∀ n ∈ nodes s kind inside contents offset width ps, n.Every (·.filled = true) := by
  induction ps generalizing offset with
  | nil => exact List.forall_mem_nil _
  | cons p ps ih =>
    obtain ⟨⟨hproper, hne⟩, hrest⟩ := List.forall_mem_cons.mp hproper
    obtain ⟨hp, hps⟩ := List.forall_mem_cons.mp h
    refine List.forall_mem_cons.mpr ⟨.intro ?_ (hp _ _), ih _ hrest hps⟩
    have hbody := Outline.trim_text_ne_nil hproper hne (width + p.deeper + 1)
    simp [Node.filled, hbody]

end Part

end Draft

end BranchingStory
