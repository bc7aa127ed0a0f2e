import BranchingStory.Proofs.Document.Passages

/-! # Statements and those below them

The statements of a document form trees. Those of a passage stand in blocks of their contexts, and so do all
statements below them. -/

namespace BranchingStory
open Grammar
set_option autoImplicit false

namespace Statement

def isOption : Statement → Bool
  | .bare (.option _ _ _) _ _ | .block (.option _ _ _) _ _ _ _ => true
  | _ => false

mutual

/-- The statement and all those below it, in the order of the document. -/
def tree : Statement → List Statement
  | .line form span issues => [.line form span issues]
  | .bare header span issues => [.bare header span issues]
  | .block header extent items span issues => .block header extent items span issues :: trees items

def trees : List Statement → List Statement
  | [] => []
  | item :: rest => item.tree ++ trees rest

end

theorem tree_eq (item : Statement) : item.tree = item :: trees item.items := by
  cases item <;> rfl

theorem trees_eq (items : List Statement) : trees items = items.flatMap tree := by
  induction items with
  | nil => rfl
  | cons item rest ih => rw [trees, ih, List.flatMap_cons]

/-- What passes from statements to those in their blocks holds of all statements below them. -/
theorem forall_trees {P : Statement → Prop} (hinner : ∀ item, P item → ∀ inner ∈ item.items, P inner)
    {items : List Statement} (h : ∀ item ∈ items, P item) : ∀ item ∈ trees items, P item := by
  have hall : ∀ item, P item → ∀ o ∈ item.tree, P o := by
    intro item
    induction item using Statement.induction with
    | h item ih =>
      intro hitem
      rw [tree_eq, trees_eq]
      refine List.forall_mem_cons.mpr ⟨hitem, ?_⟩
      intro o ho
      obtain ⟨inner, hmem, ho⟩ := List.mem_flatMap.mp ho
      exact ih inner hmem (hinner item hitem inner hmem) o ho
  intro o ho
  rw [trees_eq] at ho
  obtain ⟨item, hmem, ho⟩ := List.mem_flatMap.mp ho
  exact hall item (h item hmem) o ho

theorem mem_trees_of_mem_tree {items : List Statement} {item o : Statement} (hitem : item ∈ items)
    (ho : o ∈ item.tree) :
    o ∈ trees items := by
  rw [trees_eq]
  exact List.mem_flatMap.mpr ⟨item, hitem, ho⟩

theorem mem_trees {items : List Statement} {item : Statement} (h : item ∈ items) : item ∈ trees items := by
  refine mem_trees_of_mem_tree h ?_
  rw [tree_eq]
  exact List.mem_cons_self

/-- All that is below a statement of a tree belongs to the tree. -/
theorem mem_trees_of_mem_trees {items : List Statement} {o : Statement} (ho : o ∈ trees items) :
    ∀ inner ∈ trees o.items, inner ∈ trees items := by
  have htree : ∀ o ∈ trees items, ∀ inner ∈ o.tree, inner ∈ trees items := by
    apply forall_trees
    · intro item hitem inner hinner x hx
      apply hitem
      rw [tree_eq]
      exact List.mem_cons_of_mem _ (mem_trees_of_mem_tree hinner hx)
    · intro item hitem inner hinner
      exact mem_trees_of_mem_tree hitem hinner
  intro inner hinner
  apply htree o ho
  rw [tree_eq]
  exact List.mem_cons_of_mem _ hinner

theorem mem_trees_items {items : List Statement} (item : Statement) (hitem : item ∈ trees items) :
    ∀ inner ∈ item.items, inner ∈ trees items :=
  fun _ hinner => mem_trees_of_mem_trees hitem _ (mem_trees hinner)

end Statement

/-! ## Lines that open a block -/

namespace Grammar
variable {context inner : Context} {words : List Lexeme} {header : Header} {required : Bool}

/-- A line without a block is a header only as an option of a choice block. -/
theorem LineIn.bare_cases
    (h : LineIn context words (.bare header) ∨ ∃ inner, LineIn context words (.opening header inner false)) :
    context = .choice ∧ ∃ label guard target, header = .option (some label) guard target := by
  have hchoice : context.allows .option = true → context = .choice := by
    cases context <;> decide
  obtain ⟨-, hallowed, hform⟩ | ⟨inner, -, hallowed, hform⟩ := h
  · cases hform with
    | option hguard hend => cases hend <;> exact ⟨hchoice hallowed, _, _, _, rfl⟩
  · cases hform with
    | option hguard hend =>
      cases hend
      exact ⟨hchoice hallowed, _, _, _, rfl⟩

theorem LineIn.opening_cases (h : LineIn context words (.opening header inner required)) :
    (∃ kind name guard, header = .declaration kind (some name) guard ∧ inner = kind.context ∧
        context.allows (.declaration kind) = true) ∨
      (header = .config ∧ inner = .config ∧ (context = .topLevel ∨ context = .story)) ∨
      (∃ guard, header = .choice guard ∧ inner = .choice ∧ context ≠ .choice) ∨
      ∃ label guard, header = .option (some label) guard none ∧ inner = .optionBody ∧ context = .choice := by
  obtain ⟨-, hallowed, hform⟩ := h
  cases hform with
  | story => exact .inl ⟨.story, _, none, rfl, rfl, hallowed⟩
  | part hkind hguard => exact .inl ⟨_, _, _, rfl, rfl, hallowed⟩
  | config =>
    refine .inr (.inl ⟨rfl, rfl, ?_⟩)
    cases context <;> first | exact .inl rfl | exact .inr rfl | exact absurd hallowed (by decide)
  | choice hguard =>
    refine .inr (.inr (.inl ⟨_, rfl, rfl, ?_⟩))
    intro hcontext
    subst hcontext
    exact absurd hallowed (by decide)
  | option hguard hend =>
    cases hend
    refine .inr (.inr (.inr ⟨_, _, rfl, rfl, ?_⟩))
    cases context <;> first | rfl | exact absurd hallowed (by decide)

/-! ## Statements of passages -/

/-- Each statement of a passage is read from a line of its context, and its block is a passage of its own. -/
theorem Passage.statement_cases {p : Passage} {context : Context} (hp : p.Fits context) {item : Statement}
    (h : item ∈ p.statements) :
    (∃ words form span, item = .line form span [] ∧ LineIn context words (.line form)) ∨
      (∃ label guard target span, item = .bare (.option (some label) guard target) span [] ∧
        context = .choice) ∨
      ∃ words header inner required extent span, ∃ body : Passage,
        item = .block header extent body.statements span [] ∧
        LineIn context words (.opening header inner required) ∧ body.Fits inner := by
  induction p with
  | done => exact absurd h List.not_mem_nil
  | mark t p ih => exact ih hp.2 h
  | line words stop form p ih =>
    rcases List.mem_cons.mp h with rfl | h
    · exact .inl ⟨words, form, _, rfl, hp.1⟩
    · exact ih hp.2 h
  | bare words stop header p ih =>
    rcases List.mem_cons.mp h with rfl | h
    · obtain ⟨hcontext, label, guard, target, rfl⟩ := LineIn.bare_cases hp.1
      exact .inr (.inl ⟨label, guard, target, _, rfl, hcontext⟩)
    · exact ih hp.2 h
  | block words stop header inner blanks opening body closing p ihbody ih =>
    obtain ⟨⟨required, hline⟩, hbody, hp⟩ := hp
    rcases List.mem_cons.mp h with rfl | h
    · exact .inr (.inr ⟨words, header, inner, required, _, _, body, rfl, hline, hbody⟩)
    · exact ih hp h

end Grammar

/-- Does the statement stand in a passage of the context? -/
def Statement.StandsIn (context : Context) (item : Statement) : Prop :=
  ∃ p : Passage, p.Fits context ∧ item ∈ p.statements

/-- All statements below those of a passage stand in a passage themselves. -/
theorem Grammar.Passage.standsIn_trees {p : Passage} {context : Context} (hp : p.Fits context) :
    ∀ item ∈ Statement.trees p.statements, ∃ inner, item.StandsIn inner := by
  apply Statement.forall_trees
  · rintro item ⟨context, q, hq, hitem⟩ inner hinner
    obtain ⟨_, _, _, rfl, -⟩ | ⟨_, _, _, _, rfl, -⟩ | ⟨_, _, behind, _, _, _, body, rfl, -, hbody⟩ :=
      Passage.statement_cases hq hitem
    · exact absurd hinner List.not_mem_nil
    · exact absurd hinner List.not_mem_nil
    · exact ⟨behind, body, hbody, hinner⟩
  · exact fun item hitem => ⟨context, p, hp, hitem⟩

end BranchingStory
