import BranchingStory.Proofs.Draft.Lines
import BranchingStory.Proofs.Draft.Passages

/-! # Reading bodies of a draft

The statements of a body are read as the actions and choices that were drafted, by induction on the body and
on the options in it. -/

namespace BranchingStory
open Text Token Grammar
set_option autoImplicit false

/-! ## What statements stand for -/

namespace Source
variable {s : Source} {targets : List String} {place : Place} {inBeat : Bool} {items inside : List Statement}
  {extent span : Span}

/-- Do the statements stand for these contents, with nothing wrong about their meaning? -/
structure Gives (s : Source) (targets : List String) (place : Place) (inBeat : Bool) (items : List Statement)
    (c : Draft.Contents) : Prop where
  actions : s.actions items = c.actions
  children : s.nodes place items = c.children
  choices : s.choices items = c.choices
  findings : s.usesFindings targets inBeat items = []

/-- Do the statements of a choice block stand for these options, with nothing wrong about their meaning? -/
structure Offers (s : Source) (targets : List String) (outer : Option String) (items : List Statement)
    (cs : List Choice) : Prop where
  options : s.options outer items = cs
  children : s.nodes .choice items = []
  findings : s.usesFindings targets true items = []

theorem Gives.nil : s.Gives targets place inBeat [] {} := ⟨rfl, rfl, rfl, rfl⟩

theorem Offers.nil (outer : Option String) : s.Offers targets outer [] [] := ⟨rfl, rfl, rfl⟩

theorem Gives.line {form : Form} {deed : Deed} {actions : List Action} {children : List Node} {choices : List Choice}
    (hdeed : s.deed? form = some deed) (hform : s.lineFindings targets form = [])
    (h : s.Gives targets place inBeat items ⟨actions, children, choices⟩) :
    s.Gives targets place inBeat (.line form span [] :: items)
      ⟨⟨deed, s.range span⟩ :: actions, children, choices⟩ where
  actions := by
    have haction : s.action? (.line form span []) = some ⟨deed, s.range span⟩ := by
      rw [action?, hdeed]
      rfl
    rw [Source.actions, List.filterMap_cons_some haction]
    exact congrArg _ h.actions
  children := by
    have hnone : s.nodeOf place (.line form span []) = [] := by
      cases form with
      | erroneous => exact absurd hdeed (by simp [deed?])
      | _ => rfl
    rw [nodes, hnone]
    exact h.children
  choices := h.choices
  findings := by
    rw [usesFindings, useFindings, hform]
    exact h.findings

theorem Gives.choice {guard : Option Operand} {outer : Option String} {cs : List Choice} {actions : List Action}
    {children : List Node} {choices : List Choice} (hguard : s.guardText guard = outer)
    (hoffers : s.Offers targets outer inside cs)
    (h : s.Gives targets place true items ⟨actions, children, choices⟩) :
    s.Gives targets place true (.block (.choice guard) extent inside span [] :: items)
      ⟨actions, children, cs ++ choices⟩ where
  actions := h.actions
  children := by
    have hnone : s.nodeOf place (.block (.choice guard) extent inside span []) = [] := by
      rw [nodeOf, hoffers.children]
      simp
    rw [nodes, hnone]
    exact h.children
  choices := by
    rw [Source.choices, offered, hguard, hoffers.options, h.choices]
  findings := by
    rw [usesFindings, useFindings, h.findings]
    simp [headerFindings, hoffers.findings]

theorem Offers.jump {outer inner : Option String} {label target : Name} {name aim : String} {guard : Option Operand}
    {cs : List Choice} (hname : label.node = name) (hguard : s.guardText guard = inner) (haim : target.node = aim)
    (htarget : aim ∈ targets) (h : s.Offers targets outer items cs) :
    s.Offers targets outer (.bare (.option (some label) guard (some target)) span [] :: items)
      (⟨name, some aim, combineGuards outer inner, [], [], s.range span⟩ :: cs) where
  options := by
    rw [Source.options, Source.option, hguard, h.options, hname, Option.map_some, haim]
    rfl
  children := h.children
  findings := by
    rw [usesFindings, useFindings, h.findings, headerFindings, targetFindings, haim, if_neg]
    · rfl
    · exact fun hunknown => hunknown.2 htarget

theorem Offers.body {outer inner : Option String} {label : Name} {name : String} {guard : Option Operand}
    {cs : List Choice} {c : Draft.Contents} (hname : label.node = name) (hguard : s.guardText guard = inner)
    (hinside : s.Gives targets .narrative true inside c) (h : s.Offers targets outer items cs) :
    s.Offers targets outer (.block (.option (some label) guard none) extent inside span [] :: items)
      (⟨name, none, combineGuards outer inner, c.actions, c.choices, s.range span⟩ :: cs) where
  options := by
    rw [Source.options, Source.option, hguard, h.options, hinside.actions, hinside.choices, hname]
    rfl
  children := h.children
  findings := by
    rw [usesFindings, useFindings, h.findings, Bool.true_or, hinside.findings]
    rfl

theorem written_append (offset width : Nat) (line text : List Char) :
    s.written offset width (line ++ text) =
      s.range ⟨offset + width, offset + byteLength line + byteLength text - 1⟩ := by
  rw [written, byteLength_append, Nat.add_assoc]

end Source

namespace Draft
variable {s : Source} {beats targets : List String}

/-! ## Bodies as outlines -/

theorem Body.outline_ne_done {b : Body} (h : b ≠ .done) : b.outline ≠ .done := by
  cases b <;> simp_all [Body.outline]

theorem Options.outline_ne_done {o : Options} (h : o ≠ .done) : o.outline ≠ .done := by
  cases o <;> simp_all [Options.outline]

mutual

theorem Body.proper_outline : ∀ b : Body, b.Sound beats → b.outline.Proper
  | .done, _ => trivial
  | .act a rest, h => ⟨a.apart_row, rest.proper_outline h.2⟩
  | .choice guard _ options rest, h =>
    ⟨apart_choiceRow guard, Options.outline_ne_done h.1, options.proper_outline h.2.1, rest.proper_outline h.2.2⟩

theorem Options.proper_outline : ∀ o : Options, o.Sound beats → o.outline.Proper
  | .done, _ => trivial
  | .jump label guard target rest, h => ⟨apart_jumpRow label guard target, rest.proper_outline h.2.2⟩
  | .body label guard _ statements rest, h =>
    ⟨apart_bodyRow label guard, Body.outline_ne_done h.2.1, statements.proper_outline h.2.2.1,
      rest.proper_outline h.2.2.2⟩

end

/-! ## Bodies as statements

Each statement is written where the text of the one before it ends, so the offset grows along a body. A block is
closed where the next line has its first token, which the statements inside do not see. -/

mutual

/-- A body is read as the statements that it is written as. -/
theorem Body.exists_items (hbeats : beats ⊆ targets) {context : Context}
    (hcontext : context = .beat ∨ context = .optionBody) : ∀ (b : Body) (behind offset width : Nat),
    b.Sound beats → s.Holds offset (b.outline.text width) →
      ∃ items, b.outline.Reads context behind offset width items ∧
        s.Gives targets .narrative true items (b.contents s offset width)
  | .done, _, _, _, _, _ => ⟨[], .done, .nil⟩
  | .act a rest, behind, offset, width, ⟨hact, hrest⟩, h => by
    rw [Body.outline, Outline.text_line] at h
    obtain ⟨form, hline, hdeed, hfindings⟩ := a.exists_line hcontext h.front.front
    obtain ⟨items, hitems, hgives⟩ := rest.exists_items hbeats hcontext behind _ width hrest h.rest
    exact ⟨_, hitems.line hline, hgives.line hdeed (hfindings hact hbeats)⟩
  | .choice guard deeper options rest, behind, offset, width, ⟨hne, hoptions, hrest⟩, h => by
    rw [Body.outline, Outline.text_block] at h
    obtain ⟨g, hline, hguard⟩ := exists_choiceLine hcontext h.front.front
    obtain ⟨inside, hinside, hoffers⟩ :=
      options.exists_items hbeats (guard.map (·.text)) _ _ _ hoptions h.rest.front
    obtain ⟨items, hitems, hgives⟩ := rest.exists_items hbeats hcontext behind _ width hrest h.rest.rest
    exact ⟨_, hinside.block (options.proper_outline hoptions) (Options.outline_ne_done hne) rfl rfl hline hitems,
      hgives.choice hguard hoffers⟩

theorem Options.exists_items (hbeats : beats ⊆ targets) : ∀ (o : Options) (outer : Option String)
    (behind offset width : Nat), o.Sound beats → s.Holds offset (o.outline.text width) →
      ∃ items, o.outline.Reads .choice behind offset width items ∧
        s.Offers targets outer items (o.choices s outer offset width)
  | .done, outer, _, _, _, _, _ => ⟨[], .done, .nil outer⟩
  | .jump label guard target rest, outer, behind, offset, width, ⟨hfree, htarget, hrest⟩, h => by
    rw [Options.outline, Outline.text_line] at h
    obtain ⟨name, aim, g, hname, haim, hguard, hline⟩ := exists_jumpLine hfree h.front.front
    obtain ⟨items, hitems, hoffers⟩ := rest.exists_items hbeats outer behind _ width hrest h.rest
    exact ⟨_, hitems.bare hline, hoffers.jump hname hguard haim (hbeats htarget)⟩
  | .body label guard deeper statements rest, outer, behind, offset, width, ⟨hfree, hne, hstatements, hrest⟩, h => by
    rw [Options.outline, Outline.text_block] at h
    obtain ⟨name, g, hname, hguard, hline⟩ := exists_bodyLine hfree h.front.front
    obtain ⟨inside, hinside, hgives⟩ :=
      statements.exists_items hbeats (.inr rfl) _ _ _ hstatements h.rest.front
    obtain ⟨items, hitems, hoffers⟩ := rest.exists_items hbeats outer behind _ width hrest h.rest.rest
    have hproper := statements.proper_outline hstatements
    refine ⟨_, hinside.block hproper (Body.outline_ne_done hne) rfl rfl hline hitems, ?_⟩
    rw [Options.choices, Source.written_append]
    exact hoffers.body hname hguard hgives

end

end Draft

end BranchingStory
