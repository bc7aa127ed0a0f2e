import BranchingStory.Proofs.Diagnostic.Findings
import BranchingStory.Proofs.Document.Trees

/-! # Declarations that become nodes

Where no error is found, a walk over the script visits the declarations of the document in their order, but
not all of them: a config block at the top level becomes no node, and neither does what is declared inside
the body of an option. Nothing else is left out. -/

namespace BranchingStory
open Grammar
set_option autoImplicit false

/-! ## Declarations of a document -/

/-- What the header declares; a config block has no name. -/
def Header.declared : Header → List (NodeKind × String)
  | .declaration kind name _ => [(kind.nodeKind, (name.map (·.node)).getD "")]
  | .config => [(.config, "")]
  | .choice _ | .option _ _ _ => []

namespace Statement

def isConfig : Statement → Bool
  | .bare .config _ _ | .block .config _ _ _ _ => true
  | _ => false

def declared (item : Statement) : List (NodeKind × String) := (item.header?.map (·.declared)).getD []

mutual

/-- The statement and those below it, the bodies of options left out. -/
def reached : Statement → List Statement
  | .line form span issues => [.line form span issues]
  | .bare header span issues => [.bare header span issues]
  | .block (.option label guard target) extent items span issues =>
    [.block (.option label guard target) extent items span issues]
  | .block header extent items span issues => .block header extent items span issues :: allReached items

def allReached : List Statement → List Statement
  | [] => []
  | item :: rest => item.reached ++ allReached rest

end

theorem reached_block {header : Header} (h : ∀ label guard target, header ≠ .option label guard target)
    (extent span : Span) (items : List Statement) (issues : List Issue) :
    (Statement.block header extent items span issues).reached =
      .block header extent items span issues :: allReached items := by
  rw [reached]
  exact h

/-- What is declared by the statements, one after the other. -/
def declarations (items : List Statement) : List (NodeKind × String) := items.flatMap declared

theorem declarations_append (items rest : List Statement) :
    declarations (items ++ rest) = declarations items ++ declarations rest :=
  List.flatMap_append

theorem declarations_cons (item : Statement) (rest : List Statement) :
    declarations (item :: rest) = item.declared ++ declarations rest :=
  List.flatMap_cons

end Statement

namespace Document

/-- Everything that the document declares, in its order and at any depth. -/
def declarations (d : Document) : List (NodeKind × String) :=
  Statement.declarations (Statement.trees d.statements)

/-- What it declares outside config blocks of the top level and outside the bodies of options. -/
def kept (d : Document) : List (NodeKind × String) :=
  Statement.declarations (Statement.allReached (d.statements.filter fun item => !item.isConfig))

end Document

/-! ## Declarations of a script -/

/-- Is a node of this kind a declaration? -/
def NodeKind.isDeclared : NodeKind → Bool
  | .story | .scene | .beat | .config => true
  | .choice | .unknown => false

/-- The declarations that a walk over the script visits. -/
def Script.declarations (s : Script) : List (NodeKind × String) :=
  (s.walk.filter (·.node.kind.isDeclared)).map fun v => (v.node.kind, v.node.id)

namespace Node

def declared (n : Node) : List (NodeKind × String) := if n.kind.isDeclared then [(n.kind, n.id)] else []

mutual

def declarations : Node → List (NodeKind × String)
  | ⟨id, kind, guard, body, actions, children, choices, range⟩ =>
    let n : Node := ⟨id, kind, guard, body, actions, children, choices, range⟩
    n.declared ++ allDeclarations children

def allDeclarations : List Node → List (NodeKind × String)
  | [] => []
  | n :: rest => n.declarations ++ allDeclarations rest

end

theorem declarations_eq (n : Node) : n.declarations = n.declared ++ allDeclarations n.children := by
  cases n
  rw [declarations]

theorem allDeclarations_append (ns ms : List Node) :
    allDeclarations (ns ++ ms) = allDeclarations ns ++ allDeclarations ms := by
  induction ns with
  | nil => rfl
  | cons n ns ih => rw [List.cons_append, allDeclarations, allDeclarations, ih, List.append_assoc]

theorem allDeclarations_singleton (n : Node) : allDeclarations [n] = n.declarations :=
  List.append_nil _

end Node

namespace Visit

theorem declared_cons (v : Visit) (vs : List Visit) :
    (((v :: vs).filter (·.node.kind.isDeclared)).map fun v => (v.node.kind, v.node.id)) =
      v.node.declared ++ (vs.filter (·.node.kind.isDeclared)).map fun v => (v.node.kind, v.node.id) := by
  rw [List.filter_cons, Node.declared]
  split <;> rfl

mutual

theorem declarations_ofNode (parent : Option Node) (place : List Nat) (number : Nat) (n : Node) :
    (((ofNode parent place number n).filter (·.node.kind.isDeclared)).map fun v => (v.node.kind, v.node.id)) =
      n.declarations := by
  match n with
  | ⟨id, kind, guard, body, actions, children, choices, range⟩ =>
    rw [ofNode, declared_cons, declarations_ofSiblings, Node.declarations]

theorem declarations_ofSiblings (parent : Option Node) (place : List Nat) (number : Nat) (ns : List Node) :
    (((ofSiblings parent place number ns).filter (·.node.kind.isDeclared)).map fun v =>
      (v.node.kind, v.node.id)) =
      Node.allDeclarations ns := by
  match ns with
  | [] => rfl
  | n :: rest =>
    rw [ofSiblings, List.filter_append, List.map_append, declarations_ofNode, declarations_ofSiblings,
      Node.allDeclarations]

end

end Visit

theorem Script.declarations_eq (s : Script) : s.declarations = Node.allDeclarations s.nodes :=
  Visit.declarations_ofSiblings none [] 0 s.nodes

/-! ## From statements to nodes -/

namespace Source
open Statement
variable {s : Source}

/-- Where the statements of a block of this context are looked for nodes. -/
def placeOf : Context → Place
  | .topLevel => .topLevel
  | .story | .scene | .beat | .optionBody => .narrative
  | .config => .config
  | .choice => .choice

theorem placeOf_eq_choice {context : Context} {kind : DeclarationKind} (hplace : placeOf context = .choice)
    (hallowed : context.allows (.declaration kind) = true) : kind = .beat := by
  cases context with
  | choice => cases kind <;> first | rfl | exact absurd hallowed (by decide)
  | _ => exact absurd hplace (by decide)

theorem placeOf_kind (kind : DeclarationKind) : placeOf kind.context = .narrative := by
  cases kind <;> rfl

theorem isDeclared_nodeKind (kind : DeclarationKind) : kind.nodeKind.isDeclared = true := by
  cases kind <;> rfl

theorem allDeclarations_nodes_cons {place : Place} {item : Statement} {rest found : List Statement}
    (hitem : Node.allDeclarations (s.nodeOf place item) = Statement.declarations item.reached)
    (hrest : Node.allDeclarations (s.nodes place rest) = Statement.declarations (allReached found)) :
    Node.allDeclarations (s.nodes place (item :: rest)) =
      Statement.declarations (allReached (item :: found)) := by
  rw [nodes, Node.allDeclarations_append, allReached, declarations_append, hitem, hrest]

/-- The nodes of a declaration with a block, in whose block nothing is lost but what options declare. -/
theorem declarations_nodeOf_declaration {place : Place} {kind : DeclarationKind} {name : Option Name}
    {guard : Option Operand} {extent span : Span} {items : List Statement} {issues : List Issue}
    (hplace : ¬ (place = .choice ∧ kind ≠ .beat))
    (hinside : Node.allDeclarations (s.nodes .narrative items) = Statement.declarations (allReached items)) :
    Node.allDeclarations (s.nodeOf place (.block (.declaration kind name guard) extent items span issues)) =
      Statement.declarations
        (Statement.block (.declaration kind name guard) extent items span issues).reached := by
  rw [nodeOf, if_neg hplace, Node.allDeclarations_singleton, Node.declarations_eq, reached_block (by simp),
    declarations_cons]
  dsimp only
  rw [hinside, Node.declared, leafNode, if_pos (isDeclared_nodeKind kind)]
  rfl

theorem declarations_nodeOf_config {place : Place} {extent span : Span} {items : List Statement}
    {issues : List Issue} (hplace : place = .narrative ∨ place = .config)
    (hinside : Node.allDeclarations (s.nodes .config items) = Statement.declarations (allReached items)) :
    Node.allDeclarations (s.nodeOf place (.block .config extent items span issues)) =
      Statement.declarations (Statement.block .config extent items span issues).reached := by
  rw [nodeOf, if_pos hplace, Node.allDeclarations_singleton, Node.declarations_eq, reached_block (by simp),
    declarations_cons]
  dsimp only
  rw [hinside]
  rfl

/-- A choice block becomes a node only for the beats in it, and that node is no declaration. -/
theorem declarations_nodeOf_choice {place : Place} {guard : Option Operand} {extent span : Span}
    {items : List Statement} {issues : List Issue} (hplace : place = .narrative ∨ place = .config)
    (hinside : Node.allDeclarations (s.nodes .choice items) = Statement.declarations (allReached items)) :
    Node.allDeclarations (s.nodeOf place (.block (.choice guard) extent items span issues)) =
      Statement.declarations (Statement.block (.choice guard) extent items span issues).reached := by
  rw [nodeOf, reached_block (by simp), declarations_cons]
  dsimp only
  by_cases hbeats : s.nodes .choice items = []
  · rw [hbeats] at hinside
    rw [if_neg (fun h => h.2 hbeats), ← hinside]
    rfl
  · rw [if_pos ⟨hplace, hbeats⟩, Node.allDeclarations_singleton, Node.declarations_eq]
    dsimp only
    rw [hinside]
    rfl

/-- In a block the nodes of the statements declare what the statements do outside the bodies of options. -/
theorem declarations_nodes {p : Passage} {context : Context} (hp : p.Fits context)
    (hcontext : context ≠ .topLevel) :
    Node.allDeclarations (s.nodes (placeOf context) p.statements) =
      Statement.declarations (allReached p.statements) := by
  induction p generalizing context with
  | done => simp [Passage.statements, nodes, allReached, Node.allDeclarations, Statement.declarations]
  | mark t p ih => exact ih hp.2 hcontext
  | line words stop form p ih =>
    obtain ⟨⟨-, -, hform⟩, hp⟩ := hp
    refine allDeclarations_nodes_cons ?_ (ih hp hcontext)
    cases form with
    | erroneous => exact absurd rfl hform.clean.1
    | _ => simp [nodeOf, reached, Node.allDeclarations, Statement.declarations, declared, header?]
  | bare words stop header p ih =>
    obtain ⟨hline, hp⟩ := hp
    refine allDeclarations_nodes_cons ?_ (ih hp hcontext)
    obtain ⟨-, label, guard, target, rfl⟩ := LineIn.bare_cases hline
    simp [nodeOf, reached, Node.allDeclarations, Statement.declarations, declared, header?, Header.declared]
  | block words stop header inner blanks opening body closing p ihbody ih =>
    obtain ⟨⟨required, hline⟩, hbody, hp⟩ := hp
    refine allDeclarations_nodes_cons ?_ (ih hp hcontext)
    have hinside := ihbody hbody hline.context_ne
    obtain ⟨kind, name, guard, rfl, rfl, hallowed⟩ | ⟨rfl, rfl, hcontext'⟩ | ⟨guard, rfl, rfl, hcontext'⟩ |
      ⟨label, guard, rfl, rfl, -⟩ := hline.opening_cases
    · rw [placeOf_kind] at hinside
      exact declarations_nodeOf_declaration (fun h => h.2 (placeOf_eq_choice h.1 hallowed)) hinside
    · obtain rfl := hcontext'.resolve_left hcontext
      exact declarations_nodeOf_config (.inl rfl) hinside
    · refine declarations_nodeOf_choice ?_ hinside
      cases context <;> first | exact .inl rfl | exact .inr rfl | contradiction
    · simp [nodeOf, reached, Node.allDeclarations, Statement.declarations, declared, header?, Header.declared]

/-- At the top level config blocks become no nodes; choice blocks would not either, but the checks
refuse them. -/
theorem declarations_nodes_topLevel {p : Passage} (hp : p.Fits .topLevel)
    (hchoice : ∀ item ∈ p.statements, ∀ guard, item.header? ≠ some (.choice guard)) :
    Node.allDeclarations (s.nodes .topLevel p.statements) =
      Statement.declarations (allReached (p.statements.filter fun item => !item.isConfig)) := by
  induction p with
  | done => rfl
  | mark t p ih => exact ih hp.2 hchoice
  | line words stop form p ih =>
    obtain ⟨⟨-, -, hform⟩, hp⟩ := hp
    obtain ⟨-, hmore⟩ := List.forall_mem_cons.mp hchoice
    refine allDeclarations_nodes_cons ?_ (ih hp hmore)
    cases form with
    | erroneous => exact absurd rfl hform.clean.1
    | _ => simp [nodeOf, reached, Node.allDeclarations, Statement.declarations, declared, header?]
  | bare words stop header p ih => exact absurd (LineIn.bare_cases hp.1).1 (by decide)
  | block words stop header inner blanks opening body closing p ihbody ih =>
    obtain ⟨⟨required, hline⟩, hbody, hp⟩ := hp
    obtain ⟨hhead, hmore⟩ := List.forall_mem_cons.mp hchoice
    have hbehind := ih hp hmore
    have hinside := declarations_nodes (s := s) hbody hline.context_ne
    obtain ⟨kind, name, guard, rfl, rfl, -⟩ | ⟨rfl, rfl, -⟩ | ⟨guard, rfl, -⟩ |
      ⟨label, guard, -, -, hcontext⟩ :=
      hline.opening_cases
    · rw [placeOf_kind] at hinside
      refine allDeclarations_nodes_cons (declarations_nodeOf_declaration ?_ hinside) hbehind
      simp
    · rw [Passage.statements, nodes, nodeOf, if_neg (by decide)]
      exact hbehind
    · exact absurd rfl (hhead guard)
    · exact absurd hcontext (by decide)

/-! ## What is lost -/

end Source

namespace Statement

mutual

theorem reached_sublist (item : Statement) : item.reached.Sublist item.tree := by
  match item with
  | .line form span issues => exact List.Sublist.refl _
  | .bare header span issues => exact List.Sublist.refl _
  | .block (.option label guard target) extent items span issues =>
    exact (List.nil_sublist (trees items)).cons_cons _
  | .block (.declaration kind name guard) extent items span issues =>
    exact (allReached_sublist items).cons_cons _
  | .block .config extent items span issues => exact (allReached_sublist items).cons_cons _
  | .block (.choice guard) extent items span issues => exact (allReached_sublist items).cons_cons _

theorem allReached_sublist (items : List Statement) : (allReached items).Sublist (trees items) := by
  match items with
  | [] => exact List.Sublist.refl _
  | item :: rest => exact (reached_sublist item).append (allReached_sublist rest)

end

theorem declarations_sublist {items rest : List Statement} (h : items.Sublist rest) :
    (declarations items).Sublist (declarations rest) := by
  induction h with
  | slnil => exact List.Sublist.refl _
  | cons item h ih =>
    rw [declarations_cons]
    exact ih.trans (List.sublist_append_right _ _)
  | cons_cons item h ih =>
    rw [declarations_cons, declarations_cons]
    exact (List.Sublist.refl _).append ih

theorem declarations_eq_nil {items : List Statement} (h : declarations items = []) :
    ∀ item ∈ items, item.declared = [] :=
  List.flatMap_eq_nil_iff.mp h

/-- Two lists that are put together from parts of two others are those others only if no part is missing. -/
theorem append_eq_append_iff_of_sublist {α : Type} {a a' b b' : List α} (ha : a.Sublist a')
    (hb : b.Sublist b') :
    a ++ b = a' ++ b' ↔ a = a' ∧ b = b' := by
  constructor
  · intro h
    have hlength := congrArg List.length h
    have hfront := ha.length_le
    have hback := hb.length_le
    rw [List.length_append, List.length_append] at hlength
    exact ⟨ha.eq_of_length (by omega), hb.eq_of_length (by omega)⟩
  · rintro ⟨rfl, rfl⟩
    rfl

/-- Does no option among the statements declare something in its body? -/
def OptionsDeclareNothing (items : List Statement) : Prop :=
  ∀ o ∈ items, o.isOption = true → declarations (trees o.items) = []

theorem optionsDeclareNothing_cons {item : Statement} {rest : List Statement} (h : item.isOption = false) :
    OptionsDeclareNothing (item :: rest) ↔ OptionsDeclareNothing rest := by
  constructor
  · exact fun hall o ho => hall o (List.mem_cons_of_mem _ ho)
  · intro hall o ho hoption
    rcases List.mem_cons.mp ho with rfl | ho
    · exact absurd hoption (by simp [h])
    · exact hall o ho hoption

theorem optionsDeclareNothing_append {items rest : List Statement} :
    OptionsDeclareNothing (items ++ rest) ↔ OptionsDeclareNothing items ∧ OptionsDeclareNothing rest :=
  List.forall_mem_append

mutual

theorem declarations_reached_iff (item : Statement) :
    declarations item.reached = declarations item.tree ↔ OptionsDeclareNothing item.tree := by
  have hblock : ∀ {item : Statement} {items : List Statement}, item.isOption = false →
      (declarations (allReached items) = declarations (trees items) ↔ OptionsDeclareNothing (trees items)) →
      (declarations (item :: allReached items) = declarations (item :: trees items) ↔
        OptionsDeclareNothing (item :: trees items)) := by
    intro item items hoption hitems
    rw [declarations_cons, declarations_cons, List.append_cancel_left_eq, hitems,
      optionsDeclareNothing_cons hoption]
  match item with
  | .line form span issues => simp [reached, tree, OptionsDeclareNothing, isOption]
  | .bare header span issues => simp [reached, tree, OptionsDeclareNothing, items, trees, declarations]
  | .block (.option label guard target) extent items span issues =>
    constructor
    · intro h o ho hoption
      have hnone : declarations (trees items) = [] := h.symm
      have hall := declarations_eq_nil hnone
      refine List.flatMap_eq_nil_iff.mpr fun inner hinner => ?_
      rcases List.mem_cons.mp ho with rfl | ho
      · exact hall inner hinner
      · exact hall inner (mem_trees_of_mem_trees ho inner hinner)
    · intro h
      have hnone : declarations (trees items) = [] := h _ List.mem_cons_self rfl
      exact hnone.symm
  | .block (.declaration kind name guard) extent items span issues =>
    exact hblock rfl (declarations_allReached_iff items)
  | .block .config extent items span issues => exact hblock rfl (declarations_allReached_iff items)
  | .block (.choice guard) extent items span issues => exact hblock rfl (declarations_allReached_iff items)

theorem declarations_allReached_iff (items : List Statement) :
    declarations (allReached items) = declarations (trees items) ↔ OptionsDeclareNothing (trees items) := by
  match items with
  | [] => simp [allReached, trees, OptionsDeclareNothing]
  | item :: rest =>
    have hitem := declarations_sublist (reached_sublist item)
    have hrest := declarations_sublist (allReached_sublist rest)
    rw [allReached, trees, declarations_append, declarations_append,
      append_eq_append_iff_of_sublist hitem hrest,
      declarations_reached_iff item, declarations_allReached_iff rest, optionsDeclareNothing_append]

end

end Statement

namespace Statement

theorem allReached_filter_sublist (keep : Statement → Bool) (items : List Statement) :
    (allReached (items.filter keep)).Sublist (trees items) := by
  induction items with
  | nil => exact List.Sublist.refl _
  | cons item rest ih =>
    rw [List.filter_cons, trees]
    split
    · exact (reached_sublist item).append ih
    · exact ih.trans (List.sublist_append_right _ _)

theorem length_declarations_tree_pos {item : Statement} (h : item.isConfig = true) :
    0 < (declarations item.tree).length := by
  cases item with
  | line form span issues => exact absurd h (by simp [isConfig])
  | bare header span issues =>
    cases header with
    | config => exact Nat.succ_pos _
    | _ => exact absurd h (by simp [isConfig])
  | block header extent items span issues =>
    cases header with
    | config => exact Nat.succ_pos _
    | _ => exact absurd h (by simp [isConfig])

theorem declarations_filter_iff (items : List Statement) :
    declarations (allReached (items.filter fun item => !item.isConfig)) = declarations (trees items) ↔
      (∀ item ∈ items, item.isConfig = false) ∧ OptionsDeclareNothing (trees items) := by
  induction items with
  | nil => simp [allReached, trees, OptionsDeclareNothing]
  | cons item rest ih =>
    have hitem := declarations_sublist (reached_sublist item)
    have hrest := declarations_sublist (allReached_filter_sublist (fun item => !item.isConfig) rest)
    rw [List.filter_cons, trees, declarations_append, List.forall_mem_cons, optionsDeclareNothing_append]
    cases hconfig : item.isConfig with
    | true =>
      rw [if_neg (by simp)]
      refine iff_of_false (fun heq => ?_) (by simp)
      have hlength := congrArg List.length heq
      have hle := hrest.length_le
      have hpos := length_declarations_tree_pos hconfig
      rw [List.length_append] at hlength
      omega
    | false =>
      rw [if_pos (by simp), allReached, declarations_append, append_eq_append_iff_of_sublist hitem hrest,
        declarations_reached_iff, ih]
      tauto

end Statement

/-- Nothing is lost exactly if no config block stands at the top level and no option declares something. -/
theorem Document.kept_eq_declarations_iff (d : Document) : d.kept = d.declarations ↔
    (∀ item ∈ d.statements, item.isConfig = false) ∧
      Statement.OptionsDeclareNothing (Statement.trees d.statements) :=
  Statement.declarations_filter_iff d.statements

namespace Source
open Statement
variable {s : Source}

/-- The checks leave no choice block at the top level. -/
theorem header?_ne_choice {names : List String} {items : List Statement}
    (h : Clean (s.usesFindings names false items)) :
    ∀ item ∈ items, ∀ guard, item.header? ≠ some (.choice guard) := by
  induction items with
  | nil => simp
  | cons item rest ih =>
    rw [usesFindings] at h
    obtain ⟨hitem, hrest⟩ := List.forall_mem_append.mp h
    refine List.forall_mem_cons.mpr ⟨?_, ih hrest⟩
    intro guard hheader
    cases item with
    | line form span issues => exact absurd hheader (by simp [header?])
    | bare header span issues =>
      obtain rfl := Option.some.inj hheader
      exact absurd rfl (hitem _ List.mem_cons_self)
    | block header extent items span issues =>
      obtain rfl := Option.some.inj hheader
      exact absurd rfl (hitem _ List.mem_cons_self)

/-- Where no error is found, a walk over the script visits, in the order of the document, all declarations but
the config blocks of the top level and what the bodies of options declare. So it visits every declaration
exactly if there is no such config block and no such body. -/
theorem declarations_analyse {tabWidth : Nat} (h : (s.analyse tabWidth).hasErrors = false) :
    (s.analyse tabWidth).script.declarations = (s.document tabWidth).kept ∧
      ((s.analyse tabWidth).script.declarations = (s.document tabWidth).declarations ↔
        (∀ item ∈ (s.document tabWidth).statements, item.isConfig = false) ∧
          OptionsDeclareNothing (trees (s.document tabWidth).statements)) := by
  obtain ⟨body, hbody, hstatements, -⟩ := exists_passage h
  have hchoice := header?_ne_choice (clean_usesFindings h)
  rw [hstatements] at hchoice
  have hwalk : (s.analyse tabWidth).script.declarations = (s.document tabWidth).kept := by
    rw [Script.declarations_eq, Document.kept, hstatements, ← declarations_nodes_topLevel hbody hchoice,
      ← hstatements]
    rfl
  exact ⟨hwalk, hwalk ▸ Document.kept_eq_declarations_iff _⟩

/-- A beat is declared in a choice block that stands in the body of an option. -/
def attic : Source :=
  .ofString ("story s:\n scene a:\n  beat x:\n   choice:\n    option \"A\":\n     choice:\n" ++
    "      option \"B\" goto x\n      beat y:\n       end\n")

/-- There is nothing to say against the source, and yet the beat in the body of its option is lost. -/
theorem declarations_attic : (attic.analyse 8).hasErrors = false ∧
    (NodeKind.beat, "y") ∈ (attic.document 8).declarations ∧
      (attic.analyse 8).script.declarations = [(.story, "s"), (.scene, "a"), (.beat, "x")] := by
  decide +kernel

/-- The same story without the beat in the body of the option. -/
def loft : Source :=
  .ofString "story s:\n scene a:\n  beat x:\n   choice:\n    option \"A\":\n     end\n    beat y:\n     end\n"

theorem declarations_analyse_loft : (loft.analyse 8).hasErrors = false ∧
    (loft.analyse 8).script.declarations = [(.story, "s"), (.scene, "a"), (.beat, "x"), (.beat, "y")] ∧
      (loft.analyse 8).script.declarations = (loft.document 8).declarations := by
  have hall : (loft.analyse 8).hasErrors = false ∧
      (loft.analyse 8).script.declarations = [(.story, "s"), (.scene, "a"), (.beat, "x"), (.beat, "y")] ∧
        ((loft.document 8).statements.all fun item => !item.isConfig) ∧
          (trees (loft.document 8).statements).all fun o =>
              !o.isOption || (declarations (trees o.items)).isEmpty := by
    decide +kernel
  obtain ⟨hclean, hwalk, hconfig, hoptions⟩ := hall
  refine ⟨hclean, hwalk, (declarations_analyse hclean).2.mpr ⟨?_, ?_⟩⟩
  · intro item hitem
    simpa using List.all_eq_true.mp hconfig item hitem
  · intro o ho hoption
    have hnone := List.all_eq_true.mp hoptions o ho
    simpa [hoption] using hnone

end Source

end BranchingStory
