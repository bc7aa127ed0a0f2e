import BranchingStory.Proofs.Document.Clauses
import BranchingStory.Proofs.Script.Bodies
import BranchingStory.Proofs.Script.Walk
import BranchingStory.Proofs.Token.Gaps

/-! # Reading stored expressions again

A script keeps an expression as the text that it is written with. Scanned by itself, without the rest of the source,
the text has the tokens that it has in the source, so the expression that is read from it is the one that was read
there, only moved to the front. -/

namespace BranchingStory
open Text Token
set_option autoImplicit false

/-- The text of the expression that a deed keeps. -/
def Deed.formula? : Deed → Option String
  | .set _ value | .assignment _ value => some value
  | .emit _ payload => payload
  | _ => none

/-- Are the tokens of the text, without layout marks, read as the expression, all of it moved by one distance? -/
def Expr.RereadFrom (e : Expr) (text : String) : Prop :=
  ∀ tabWidth, ∃ moved,
    Expr.parse? (proper (tokens (.ofString text) tabWidth)) = some moved ∧ moved.shift e.span.start = e

/-- If the operand is an expression, is a text kept from which it is read again? -/
def Operand.RereadFrom (o : Option Operand) (kept : Option String) : Prop :=
  ∀ e, o = some (.parsed e) → ∃ text, kept = some text ∧ e.RereadFrom text

/-- A text without line feeds among its tokens has, by itself, just these tokens and layout marks. -/
theorem proper_tokens_ofList {text : List Char} (h : ∀ t ∈ lexemes 0 text, t.node.isLayout = false) (tabWidth : Nat) :
    proper (tokens (.ofString (String.ofList text)) tabWidth) = lexemes 0 text := by
  rw [proper_tokens]
  show proper (lexemes 0 (String.ofList text).toList) = _
  rw [String.toList_ofList]
  exact proper_of_words h

theorem Expr.WrittenAs.rereadFrom {e : Expr} {text : List Char} (h : e.WrittenAs text) :
    e.RereadFrom (String.ofList text) := by
  intro tabWidth
  rw [proper_tokens_ofList fun t ht => (h.known t ht).1]
  exact h.exists_base

namespace Source
open Statement
variable {s : Source} {tabWidth : Nat} {item : Statement}

/-! ## What statements keep -/

section Operands
variable (hitem : item ∈ trees (s.document tabWidth).statements)
include hitem

theorem rereadFrom_operandText : Operand.RereadFrom item.operand? (item.operand?.map s.operandText) := by
  intro e he
  obtain ⟨text, hwritten, htext⟩ := operandText_written hitem he
  exact ⟨s.operandText (.parsed e), by rw [he]; rfl, htext ▸ hwritten.rereadFrom⟩

/-- No text of an expression is blank, so every guard that is an expression is kept. -/
theorem guardText_written {e : Expr} (he : item.operand? = some (.parsed e)) :
    ∃ text, e.WrittenAs text ∧ s.guardText item.operand? = some (String.ofList text) := by
  obtain ⟨text, hwritten, htext⟩ := operandText_written hitem he
  refine ⟨text, hwritten, ?_⟩
  have hne : String.ofList text ≠ "" := by simpa using hwritten.trimmed.ne_nil
  rw [guardText, he, Option.map_some, htext, Option.filter_some, if_pos (by simpa using hne)]

theorem rereadFrom_guardText : Operand.RereadFrom item.operand? (s.guardText item.operand?) := by
  intro e he
  obtain ⟨text, hwritten, htext⟩ := guardText_written hitem he
  exact ⟨_, htext, hwritten.rereadFrom⟩

end Operands

/-- A deed keeps the text of the operand of its line. -/
theorem formula?_of_action? {a : Action} (h : s.action? item = some a) :
    a.deed.formula? = item.operand?.map s.operandText := by
  cases item with
  | line form span issues =>
    obtain ⟨deed, hdeed, rfl⟩ := Option.map_eq_some_iff.mp h
    show deed.formula? = form.operand?.map s.operandText
    unfold deed? at hdeed
    split at hdeed <;> cases hdeed <;> rfl
  | bare header span issues => simp [action?] at h
  | block header extent items span issues => simp [action?] at h

/-! ## What scripts keep -/

/-- Is the action made from a statement of the document, and is the operand of this read again from what the
action keeps? -/
def KeepsAction (s : Source) (d : Document) (a : Action) : Prop :=
  ∃ item ∈ trees d.statements, s.action? item = some a ∧ Operand.RereadFrom item.operand? a.deed.formula?

/-- Is the node made from a statement of the document, and is the guard of this read again from that of the node? -/
def KeepsNode (s : Source) (d : Document) (n : Node) : Prop :=
  ∃ item ∈ trees d.statements, s.Makes item n ∧ Operand.RereadFrom item.operand? n.guard

/-- Is the choice made from an option with the guard `inner` in a choice block with the guard `outer`? -/
def MakesUnder (s : Source) (d : Document) (outer inner : Option Operand) (c : Choice) : Prop :=
  ∃ block ∈ trees d.statements, ∃ item ∈ block.items, ∃ label target,
    block.header? = some (.choice outer) ∧ item.header? = some (.option (some label) inner target) ∧
    c = s.optionOf (s.guardText outer) item label inner target

/-- Is the choice made from an option of the document, and, if a guard is kept of only this or its choice block, is
that guard read again from the one of the choice? None is kept where none is written or the text of it is blank. -/
def KeepsChoice (s : Source) (d : Document) (c : Choice) : Prop :=
  ∃ outer inner, s.MakesUnder d outer inner c ∧
    (s.guardText inner = none → Operand.RereadFrom outer c.guard) ∧
    (s.guardText outer = none → Operand.RereadFrom inner c.guard)

theorem keepsAction_actions {items : List Statement}
    (hitems : ∀ item ∈ items, item ∈ trees (s.document tabWidth).statements) :
    ∀ a ∈ s.actions items, s.KeepsAction (s.document tabWidth) a := by
  intro a ha
  obtain ⟨item, hmem, haction⟩ := List.mem_filterMap.mp ha
  refine ⟨item, hitems item hmem, haction, ?_⟩
  rw [formula?_of_action? haction]
  exact rereadFrom_operandText (hitems item hmem)

theorem operand?_of_header? {header : Header} (h : item.header? = some header) : item.operand? = header.operand? := by
  cases item <;> cases h <;> rfl

theorem combineGuards_none (outer : Option String) : combineGuards outer none = outer := by
  cases outer <;> rfl

theorem none_combineGuards (inner : Option String) : combineGuards none inner = inner := rfl

/-- All options that statements of the document offer, however deep, stand in choice blocks of the document. -/
theorem makesUnder_choices {items : List Statement}
    (hitems : ∀ item ∈ items, item ∈ trees (s.document tabWidth).statements) :
    ∀ c ∈ s.choices items, c.Every fun c => ∃ outer inner, s.MakesUnder (s.document tabWidth) outer inner c := by
  refine choices_all_guarded mem_trees_items ?_ hitems
  intro block outer item label inner target hblock hchoice hmem hoption hbelow
  exact .intro ⟨outer, inner, block, hblock, item, hmem, label, target, hchoice, hoption, rfl⟩ hbelow

theorem MakesUnder.keeps {outer inner : Option Operand} {c : Choice}
    (h : s.MakesUnder (s.document tabWidth) outer inner c) :
    s.KeepsChoice (s.document tabWidth) c ∧ ∀ a ∈ c.actions, s.KeepsAction (s.document tabWidth) a := by
  obtain ⟨block, hblock, item, hmem, label, target, hchoice, hoption, rfl⟩ := id h
  have hitem := mem_trees_items block hblock item hmem
  have houter := rereadFrom_guardText hblock
  have hinner := rereadFrom_guardText hitem
  rw [operand?_of_header? hchoice] at houter
  rw [operand?_of_header? hoption] at hinner
  refine ⟨⟨outer, inner, h, ?_, ?_⟩, keepsAction_actions (mem_trees_items item hitem)⟩
  · intro hnone
    show Operand.RereadFrom outer (combineGuards (s.guardText outer) (s.guardText inner))
    rwa [hnone, combineGuards_none]
  · intro hnone
    show Operand.RereadFrom inner (combineGuards (s.guardText outer) (s.guardText inner))
    rwa [hnone, none_combineGuards]

/-- Every expression that a script keeps by itself is read again from the text that it keeps: the guard of a node or
of a choice that keeps just one, and what an action sets, assigns or sends along. -/
theorem operands_reread (s : Source) (tabWidth : Nat) :
    ∀ v ∈ (s.analyse tabWidth).script.walk,
      s.KeepsNode (s.document tabWidth) v.node ∧ (∀ a ∈ v.node.actions, s.KeepsAction (s.document tabWidth) a) ∧
      ∀ c ∈ v.node.choices, c.Every fun c =>
        s.KeepsChoice (s.document tabWidth) c ∧ ∀ a ∈ c.actions, s.KeepsAction (s.document tabWidth) a := by
  intro v hv
  obtain ⟨item, hitem, hmakes⟩ := s.makes_walk tabWidth v hv
  have hinside := mem_trees_items item hitem
  refine ⟨⟨item, hitem, hmakes, ?_⟩, hmakes.forall_actions (keepsAction_actions hinside), ?_⟩
  · rw [hmakes.guard]
    exact rereadFrom_guardText hitem
  · refine hmakes.forall_choices fun c hc => (makesUnder_choices hinside c hc).imp fun d hd => ?_
    obtain ⟨outer, inner, hunder⟩ := hd
    exact hunder.keeps

/-- A beat with an expression in each of the places, one of them written over two lines. -/
def orchard : Source := .ofString ("story s:\n scene a:\n  beat x when ripe:\n   set picked = picked /* one\n more */ + 1\n" ++
  "   mood = \"fine\"\n   emit bell with [1, 2]\n   choice when not dark:\n    option \"Stay\" goto x\n")

/-- All of them are read again, also the one with a line feed in its text. -/
theorem operands_reread_orchard :
    ∃ v ∈ (orchard.analyse 8).script.walk,
      (v.node.guard = some "ripe" ∧ v.node.choices.map (·.guard) = [some "not dark"] ∧
        v.node.actions.map (·.deed.formula?) = [some "picked /* one\n more */ + 1", some "\"fine\"", some "[1, 2]"]) ∧
      orchard.KeepsNode (orchard.document 8) v.node ∧
      (∀ a ∈ v.node.actions, orchard.KeepsAction (orchard.document 8) a) ∧
      ∀ c ∈ v.node.choices, c.Every fun c =>
        orchard.KeepsChoice (orchard.document 8) c ∧ ∀ a ∈ c.actions, orchard.KeepsAction (orchard.document 8) a := by
  have hkept : (orchard.analyse 8).script.walk.any fun v =>
      v.node.guard = some "ripe" ∧ v.node.choices.map (·.guard) = [some "not dark"] ∧
        v.node.actions.map (·.deed.formula?) =
          [some "picked /* one\n more */ + 1", some "\"fine\"", some "[1, 2]"] := by decide +kernel
  obtain ⟨v, hv, hnode⟩ := List.any_eq_true.mp hkept
  exact ⟨v, hv, by simpa using hnode, operands_reread orchard 8 v hv⟩

/-- The guard of the choice block is no expression, and as its text is blank, the option keeps its own guard alone. -/
example :
    let gate := Source.ofString
      "story s:\n scene a:\n  beat x:\n   choice when \u2003:\n    option \"Go\" when z goto x\n"
    (gate.analyse 8).script.walk.any fun v => v.node.choices.map (·.guard) = [some "z"] := by
  decide +kernel

end Source

end BranchingStory
