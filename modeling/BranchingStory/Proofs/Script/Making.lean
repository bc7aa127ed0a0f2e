import BranchingStory.Proofs.Document.Statements
import BranchingStory.Script.OfDocument
import Mathlib.Data.List.Basic

/-! # What a script is made of

Each option and each node of a script is made from one statement, and what it holds is made from the
statements of that statement's block. What holds of all of them is proved by induction on statements. -/

namespace BranchingStory
set_option autoImplicit false

namespace Source
variable {s : Source}

/-! ## Actions -/

theorem actions_eq (items : List Statement) :
    s.actions items = items.flatMap fun item => (s.action? item).toList :=
  List.filterMap_eq_flatMap_toList _ _

theorem action?_cases {item : Statement} {a : Action} (h : s.action? item = some a) :
    item.isMisplaced = false ∧ a.range = s.range item.span := by
  cases item with
  | line form span issues =>
    obtain ⟨deed, hdeed, rfl⟩ := Option.map_eq_some_iff.mp h
    refine ⟨?_, rfl⟩
    cases form with
    | inconsistentIndentation => simp [deed?] at hdeed
    | _ => rfl
  | bare header span issues => simp [action?] at h
  | block header extent items span issues => simp [action?] at h

/-! ## Choices -/

theorem options_eq (outer : Option String) (items : List Statement) :
    s.options outer items = items.flatMap (s.option outer) := by
  induction items with
  | nil => simp [options]
  | cons item rest ih => rw [options, ih, List.flatMap_cons]

theorem choices_eq (items : List Statement) : s.choices items = items.flatMap s.offered := by
  induction items with
  | nil => simp [choices]
  | cons item rest ih => rw [choices, ih, List.flatMap_cons]

/-- The option that a statement with this header is, under the guard of its choice block. -/
def optionOf (s : Source) (outer : Option String) (item : Statement) (label : Name) (guard : Option Operand)
    (target : Option Name) : Choice :=
  ⟨label.node, target.map (·.node), combineGuards outer (s.guardText guard), s.actions item.items,
    s.choices item.items, s.range item.span⟩

theorem option_cases (outer : Option String) (item : Statement) :
    s.option outer item = [] ∨ ∃ label guard target, item.header? = some (.option (some label) guard target) ∧
      s.option outer item = [s.optionOf outer item label guard target] := by
  match item with
  | .bare (.option (some label) guard target) span _ =>
    exact .inr ⟨label, guard, target, rfl,
      by simp [option, optionOf, Statement.items, actions, choices, Statement.span]⟩
  | .block (.option (some label) guard target) _ items span _ =>
    exact .inr ⟨label, guard, target, rfl, by simp [option, optionOf, Statement.items, Statement.span]⟩
  | .line .. | .bare (.option none ..) .. | .bare (.declaration ..) .. | .bare .config ..
  | .bare (.choice ..) .. | .block (.option none ..) .. | .block (.declaration ..) .. | .block .config ..
  | .block (.choice ..) .. =>
    exact .inl (by simp [option])

theorem offered_cases (item : Statement) :
    s.offered item = [] ∨ ∃ guard, item.header? = some (.choice guard) ∧
      s.offered item = s.options (s.guardText guard) item.items := by
  match item with
  | .block (.choice guard) _ items _ _ => exact .inr ⟨guard, rfl, by rw [offered]; rfl⟩
  | .line .. | .bare .. | .block (.declaration ..) .. | .block .config .. | .block (.option ..) .. =>
    exact .inl (by simp [offered])

/-- If `P` passes to the statements of a block and an option of a choice block with `P` has `Q` as soon as its own
choices have it, all choices that statements with `P` offer have `Q`. -/
theorem choices_all_guarded {P : Statement → Prop} {Q : Choice → Prop}
    (hitems : ∀ item, P item → ∀ inner ∈ item.items, P inner)
    (hoption : ∀ block outer item label guard target, P block → block.header? = some (.choice outer) →
      item ∈ block.items → item.header? = some (.option (some label) guard target) →
      (∀ c ∈ s.choices item.items, Q c) → Q (s.optionOf (s.guardText outer) item label guard target))
    {items : List Statement} (h : ∀ item ∈ items, P item) : ∀ c ∈ s.choices items, Q c := by
  have hall : ∀ item, (∀ block outer, P block → block.header? = some (.choice outer) → item ∈ block.items →
      ∀ c ∈ s.option (s.guardText outer) item, Q c) ∧ (P item → ∀ c ∈ s.offered item, Q c) := by
    intro item
    induction item using Statement.induction with
    | h item ih =>
      refine ⟨fun block outer hblock hchoice hmem => ?_, fun hitem => ?_⟩
      · rcases option_cases (s.guardText outer) item with hnone | ⟨label, guard, target, hheader, hone⟩
        · rw [hnone]
          simp
        · rw [hone]
          refine List.forall_mem_singleton.mpr (hoption _ _ _ _ _ _ hblock hchoice hmem hheader fun c hc => ?_)
          rw [choices_eq] at hc
          obtain ⟨inner, hinner, hc⟩ := List.mem_flatMap.mp hc
          exact (ih inner hinner).2 (hitems item (hitems block hblock item hmem) inner hinner) c hc
      · rcases offered_cases item with hnone | ⟨outer, hchoice, hoptions⟩
        · rw [hnone]
          simp
        · intro c hc
          rw [hoptions, options_eq] at hc
          obtain ⟨inner, hinner, hc⟩ := List.mem_flatMap.mp hc
          exact (ih inner hinner).1 item outer hitem hchoice hinner c hc
  intro c hc
  rw [choices_eq] at hc
  obtain ⟨item, hmem, hc⟩ := List.mem_flatMap.mp hc
  exact (hall item).2 (h item hmem) c hc

/-- If it does not matter which guard an option stands under, its choice block need not be looked at. -/
theorem choices_all {P : Statement → Prop} {Q : Choice → Prop}
    (hitems : ∀ item, P item → ∀ inner ∈ item.items, P inner)
    (hoption : ∀ outer item label guard target, P item →
      item.header? = some (.option (some label) guard target) → (∀ c ∈ s.choices item.items, Q c) →
      Q (s.optionOf outer item label guard target))
    {items : List Statement} (h : ∀ item ∈ items, P item) : ∀ c ∈ s.choices items, Q c := by
  refine choices_all_guarded hitems ?_ h
  exact fun block _ item _ _ _ hblock _ hmem hheader => hoption _ item _ _ _ (hitems block hblock item hmem) hheader

/-! ## Nodes -/

theorem nodes_eq (place : Place) (items : List Statement) :
    s.nodes place items = items.flatMap (s.nodeOf place) := by
  induction items with
  | nil => simp [nodes]
  | cons item rest ih => rw [nodes, ih, List.flatMap_cons]

/-- Can the statement become the node? -/
structure Makes (s : Source) (item : Statement) (n : Node) : Prop where
  stands : item.isMisplaced = false
  range : n.range = s.range item.span
  guard : n.guard = s.guardText item.operand?
  origin : n.kind.isNarrative = false ∧ n.id = "" ∨ ∃ kind name guard,
    item.header? = some (.declaration kind name guard) ∧ n.kind = kind.nodeKind ∧
      n.id = (name.map (·.node)).getD ""
  actions : n.actions = [] ∨ n.actions = s.actions item.items
  choices : n.choices = [] ∨ n.choices = s.choices item.items
  children : n.children = [] ∨ ∃ place, n.children = s.nodes place item.items

theorem Makes.name {item : Statement} {n : Node} (h : s.Makes item n) :
    n.id = "" ∨ ∃ kind name guard, item.header? = some (.declaration kind (some name) guard) ∧
      n.id = name.node ∧ n.kind = kind.nodeKind := by
  rcases h.origin with ⟨-, hid⟩ | ⟨kind, name, guard, hheader, hkind, hid⟩
  · exact .inl hid
  · cases name with
    | none => exact .inl hid
    | some name => exact .inr ⟨kind, name, guard, hheader, hid, hkind⟩

theorem Makes.forall_actions {item : Statement} {n : Node} {Q : Action → Prop} (h : s.Makes item n)
    (hall : ∀ a ∈ s.actions item.items, Q a) : ∀ a ∈ n.actions, Q a := by
  rcases h.actions with hnil | heq
  · simp [hnil]
  · rwa [heq]

theorem Makes.forall_choices {item : Statement} {n : Node} {Q : Choice → Prop} (h : s.Makes item n)
    (hall : ∀ c ∈ s.choices item.items, Q c) : ∀ c ∈ n.choices, Q c := by
  rcases h.choices with hnil | heq
  · simp [hnil]
  · rwa [heq]

theorem nodeOf_cases (place : Place) (item : Statement) :
    s.nodeOf place item = [] ∨ ∃ n, s.nodeOf place item = [n] ∧ s.Makes item n := by
  match item with
  | .line .erroneous span _ =>
    rw [nodeOf]
    split
    · exact .inr ⟨_, rfl, rfl, rfl, rfl, .inl ⟨rfl, rfl⟩, .inl rfl, .inl rfl, .inl rfl⟩
    · exact .inl rfl
  | .bare (.declaration kind name guard) span _ =>
    rw [nodeOf]
    split
    · exact .inl rfl
    · exact .inr ⟨_, rfl, rfl, rfl, rfl, .inr ⟨kind, name, guard, rfl, rfl, rfl⟩, .inl rfl, .inl rfl, .inl rfl⟩
  | .bare .config span _ =>
    rw [nodeOf]
    split
    · exact .inr ⟨_, rfl, rfl, rfl, rfl, .inl ⟨rfl, rfl⟩, .inl rfl, .inl rfl, .inl rfl⟩
    · exact .inl rfl
  | .block (.declaration kind name guard) extent items span _ =>
    rw [nodeOf]
    split
    · exact .inl rfl
    · exact .inr ⟨_, rfl, rfl, rfl, rfl, .inr ⟨kind, name, guard, rfl, rfl, rfl⟩, .inr rfl, .inr rfl, .inr ⟨_, rfl⟩⟩
  | .block .config extent items span _ =>
    rw [nodeOf]
    split
    · exact .inr ⟨_, rfl, rfl, rfl, rfl, .inl ⟨rfl, rfl⟩, .inr rfl, .inr rfl, .inr ⟨_, rfl⟩⟩
    · exact .inl rfl
  | .block (.choice guard) extent items span _ =>
    rw [nodeOf]
    dsimp only
    split
    · exact .inr ⟨_, rfl, rfl, rfl, rfl, .inl ⟨rfl, rfl⟩, .inl rfl, .inl rfl, .inr ⟨_, rfl⟩⟩
    · exact .inl rfl
  | .line (.goto _) .. | .line .finish .. | .line .giveBack .. | .line (.include _) .. | .line (.guard _) ..
  | .line (.assignment ..) .. | .line (.say ..) .. | .line (.stage _) .. | .line (.set ..) ..
  | .line (.emit ..) .. | .line .inconsistentIndentation .. | .bare (.choice _) .. | .bare (.option ..) ..
  | .block (.option ..) .. =>
    exact .inl (by simp [nodeOf])

/-- If `P` passes to the statements of a block and a node has `Q` as soon as its children have it, all nodes
that statements with `P` become have `Q`. -/
theorem nodes_all {P : Statement → Prop} {Q : Node → Prop}
    (hitems : ∀ item, P item → ∀ inner ∈ item.items, P inner)
    (hnode : ∀ item n, P item → s.Makes item n → (∀ m ∈ n.children, Q m) → Q n)
    (place : Place) {items : List Statement} (h : ∀ item ∈ items, P item) :
    ∀ n ∈ s.nodes place items, Q n := by
  have hall : ∀ item, P item → ∀ place, ∀ n ∈ s.nodeOf place item, Q n := by
    intro item
    induction item using Statement.induction with
    | h item ih =>
      intro hitem place n hn
      rcases nodeOf_cases place item with hnone | ⟨made, hone, hmakes⟩
      · rw [hnone] at hn
        simp at hn
      · rw [hone] at hn
        obtain rfl := List.mem_singleton.mp hn
        refine hnode item n hitem hmakes fun m hm => ?_
        rcases hmakes.children with hnil | ⟨inside, hchildren⟩
        · rw [hnil] at hm
          simp at hm
        · rw [hchildren, nodes_eq] at hm
          obtain ⟨inner, hmem, hm⟩ := List.mem_flatMap.mp hm
          exact ih inner hmem (hitems item hitem inner hmem) inside m hm
  intro n hn
  rw [nodes_eq] at hn
  obtain ⟨item, hmem, hn⟩ := List.mem_flatMap.mp hn
  exact hall item (h item hmem) place n hn

end Source

end BranchingStory
