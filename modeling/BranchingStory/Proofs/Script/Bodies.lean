import BranchingStory.Proofs.Diagnostic.Findings
import BranchingStory.Proofs.Document.Trees

/-! # Bodies of options

An option without a target is made from the block behind it, of which guards become nothing and choice blocks
only their options. So the checks let an option through whose block holds nothing else, and the choice that it
becomes leads nowhere. No other choice does. -/

namespace BranchingStory
open Grammar
set_option autoImplicit false

namespace Statement

/-- Does the statement give nothing to an option whose body it stands in? -/
def isIdle : Statement → Bool
  | .line (.guard _) _ _ => true
  | .block (.choice _) _ items _ _ => items.all (!·.isOption)
  | _ => false

/-- Is the statement an option without a target whose body gives it nothing? -/
def isIdleOption : Statement → Bool
  | .block (.option _ _ none) _ items _ _ => items.all (·.isIdle)
  | _ => false

end Statement

/-- Does `R` hold of the choice and of all choices in it? -/
inductive Choice.Every (R : Choice → Prop) : Choice → Prop
  | intro {c : Choice} (here : R c) (inner : ∀ d ∈ c.choices, Every R d) : Every R c

namespace Choice.Every
variable {R : Choice → Prop} {c : Choice}

theorem here (h : c.Every R) : R c := by
  cases h
  assumption

theorem inner (h : c.Every R) : ∀ d ∈ c.choices, d.Every R := by
  cases h
  assumption

theorem imp {R' : Choice → Prop} (h : c.Every R) (himp : ∀ d, R d → R' d) : c.Every R' := by
  induction h with
  | intro here _ ih => exact .intro (himp _ here) ih

end Choice.Every

/-- Can the choice not be followed, for it has neither a target nor a body? -/
def Choice.LeadsNowhere (c : Choice) : Prop := c.explicitTarget? = none ∧ c.hasBody = false

namespace Source
open Statement
variable {s : Source} {tabWidth : Nat}

/-- Is the choice made from the statement, which is an option? -/
def MakesChoice (s : Source) (item : Statement) (c : Choice) : Prop :=
  ∃ outer label guard target, item.header? = some (.option (some label) guard target) ∧
    c = s.optionOf outer item label guard target

/-- Is the choice made from an option of the document whose body gives it nothing? -/
def IsIdleIn (s : Source) (d : Document) (c : Choice) : Prop :=
  ∃ item ∈ trees d.statements, item.isIdleOption = true ∧ s.MakesChoice item c

/-! ## What a body gives -/

section Given
variable {words : List Lexeme} {span : Span} {item : Statement}

/-- Every line of the body of an option is an action, but a guard. -/
theorem action?_eq_none_iff {form : Form} (h : LineIn .optionBody words (.line form)) :
    s.action? (.line form span []) = none ↔ (Statement.line form span []).isIdle = true := by
  obtain ⟨-, hallowed, hform⟩ := h
  cases hform with
  | «include» => exact absurd hallowed (by decide)
  | option hguard hend => cases hend
  | _ => simp [action?, deed?, isIdle]

theorem option_eq_nil_iff (outer : Option String) (h : item.StandsIn .choice) :
    s.option outer item = [] ↔ item.isOption = false := by
  obtain ⟨p, hp, hitem⟩ := h
  obtain ⟨_, _, _, rfl, -⟩ | ⟨_, _, _, _, rfl, -⟩ | ⟨_, _, _, _, _, _, body, rfl, hline, -⟩ :=
    Passage.statement_cases hp hitem
  · simp [option, isOption]
  · simp [option, isOption]
  · obtain ⟨_, _, _, rfl, -⟩ | ⟨rfl, -⟩ | ⟨_, rfl, -⟩ | ⟨_, _, rfl, -⟩ := hline.opening_cases <;>
      simp [option, isOption]

/-- A statement in the body of an option is idle if it is no action and offers nothing. -/
theorem isIdle_iff (h : item.StandsIn .optionBody) :
    item.isIdle = true ↔ s.action? item = none ∧ s.offered item = [] := by
  obtain ⟨p, hp, hitem⟩ := h
  obtain ⟨_, form, _, rfl, hline⟩ | ⟨_, _, _, _, rfl, hcontext⟩ | ⟨_, _, _, _, _, _, body, rfl, hline, hbody⟩ :=
    Passage.statement_cases hp hitem
  · rw [← action?_eq_none_iff (s := s) hline]
    simp [offered]
  · exact absurd hcontext (by decide)
  · obtain ⟨kind, _, _, rfl, -, hallowed⟩ | ⟨rfl, -, hcontext⟩ | ⟨guard, rfl, rfl, -⟩ |
      ⟨_, _, rfl, -, hcontext⟩ := hline.opening_cases
    · cases kind <;> exact absurd hallowed (by decide)
    · exact absurd hcontext (by decide)
    · have hoptions : s.options (s.guardText guard) body.statements = [] ↔
          ∀ o ∈ body.statements, o.isOption = false := by
        rw [options_eq, List.flatMap_eq_nil_iff]
        exact forall₂_congr fun o ho => option_eq_nil_iff _ ⟨body, hbody, ho⟩
      rw [offered, hoptions]
      simp [isIdle, action?]
    · exact absurd hcontext (by decide)

theorem hasBody_eq_false_iff {body : Passage} (hbody : body.Fits .optionBody) :
    (s.actions body.statements = [] ∧ s.choices body.statements = []) ↔
      body.statements.all (·.isIdle) = true := by
  rw [actions, List.filterMap_eq_nil_iff, choices_eq, List.flatMap_eq_nil_iff, List.all_eq_true]
  constructor
  · rintro ⟨hactions, hchoices⟩ item hitem
    exact (isIdle_iff (s := s) ⟨body, hbody, hitem⟩).mpr ⟨hactions item hitem, hchoices item hitem⟩
  · intro hall
    refine ⟨fun item hitem => ?_, fun item hitem => ?_⟩
    · exact ((isIdle_iff (s := s) ⟨body, hbody, hitem⟩).mp (hall item hitem)).1
    · exact ((isIdle_iff (s := s) ⟨body, hbody, hitem⟩).mp (hall item hitem)).2

end Given

/-! ## What the checks leave -/

theorem clean_useFindings {names : List String} {inBeat : Bool} {items : List Statement}
    (h : Clean (s.usesFindings names inBeat items)) :
    ∀ item ∈ items, Clean (s.useFindings names inBeat item) := by
  induction items with
  | nil => simp
  | cons item rest ih =>
    rw [usesFindings] at h
    obtain ⟨hitem, hrest⟩ := List.forall_mem_append.mp h
    exact List.forall_mem_cons.mpr ⟨hitem, ih hrest⟩

/-- The checks refuse every option that has neither a target nor a block. -/
theorem option_ne_bare {names : List String} {inBeat : Bool} {items : List Statement}
    (h : Clean (s.usesFindings names inBeat items)) :
    ∀ item ∈ trees items, ∀ label guard span issues, item ≠ .bare (.option label guard none) span issues := by
  have hall : ∀ item ∈ trees items, ∃ inBeat, Clean (s.useFindings names inBeat item) := by
    apply forall_trees
    · rintro item ⟨inBeat, hitem⟩ inner hinner
      cases item with
      | line form span issues => exact absurd hinner List.not_mem_nil
      | bare header span issues => exact absurd hinner List.not_mem_nil
      | block header extent items span issues =>
        rw [useFindings] at hitem
        exact ⟨_, clean_useFindings (List.forall_mem_append.mp hitem).2 inner hinner⟩
    · exact fun item hitem => ⟨inBeat, clean_useFindings h item hitem⟩
  intro item hitem label guard span issues heq
  obtain ⟨inBeat, hclean⟩ := hall item hitem
  subst heq
  exact hclean _ List.mem_cons_self rfl

/-! ## Choices that lead nowhere -/

section Choices
variable (h : (s.analyse tabWidth).hasErrors = false)
include h

/-- Without a block behind it an option has a target, and the choice that it becomes leads there. -/
theorem not_leadsNowhere_bare {label : Name} {guard : Option Operand} {target : Option Name} {span : Span}
    {issues : List Issue} (outer : Option String)
    (hitem : .bare (.option (some label) guard target) span issues ∈ trees (s.document tabWidth).statements) :
    ¬ (s.optionOf outer (.bare (.option (some label) guard target) span issues) label guard target).LeadsNowhere := by
  rintro ⟨hnone, -⟩
  cases htarget : target with
  | none =>
    subst htarget
    exact option_ne_bare (clean_usesFindings h) _ hitem _ _ _ _ rfl
  | some t =>
    have haimed := forall_trees (fun _ hall => hall.inner) (aimed_document h) _ hitem
    have hchoice :
        (s.optionOf outer (.bare (.option (some label) guard target) span issues) label guard target).Aimed
          (s.analyse tabWidth).script.targets := by
      refine .intro ?_ ?_
      · intro name hname
        obtain ⟨t, ht, rfl⟩ := Option.map_eq_some_iff.mp hname
        exact haimed.of_header? rfl t ht
      · simp [optionOf, items, choices]
    rw [explicitTarget?_of_aimed hchoice, htarget] at hnone
    exact absurd hnone (by simp [optionOf])

omit h in
/-- With a block behind it, an option becomes a choice that leads nowhere exactly if the block is idle. -/
theorem leadsNowhere_block_iff {body : Passage} (hbody : body.Fits .optionBody) (outer : Option String)
    (label : Name) (guard : Option Operand) (extent span : Span) (issues : List Issue) :
    (s.optionOf outer (.block (.option (some label) guard none) extent body.statements span issues)
      label guard none).LeadsNowhere ↔ body.statements.all (·.isIdle) = true := by
  rw [← hasBody_eq_false_iff (s := s) hbody]
  simp [Choice.LeadsNowhere, Choice.explicitTarget?, optionOf, Choice.hasBody, items]

/-- The choice that an option is made into leads nowhere exactly if the body of the option gives it nothing. -/
theorem leadsNowhere_iff {item : Statement} (hitem : item ∈ trees (s.document tabWidth).statements) {c : Choice}
    (hc : s.MakesChoice item c) : c.LeadsNowhere ↔ item.isIdleOption = true := by
  obtain ⟨p, hp, hstatements, -⟩ := exists_passage h
  obtain ⟨context, q, hq, hmem⟩ := Passage.standsIn_trees hp item (hstatements ▸ hitem)
  obtain ⟨outer, label, guard, target, hheader, rfl⟩ := hc
  obtain ⟨_, _, _, rfl, -⟩ | ⟨label', guard', target', span, rfl, -⟩ |
    ⟨_, _, _, _, _, _, body, rfl, hline, hbody⟩ := Passage.statement_cases hq hmem
  · exact absurd hheader (by simp [header?])
  · obtain ⟨hlabel, rfl, rfl⟩ := Header.option.inj (Option.some.inj hheader)
    obtain rfl := Option.some.inj hlabel
    exact iff_of_false (not_leadsNowhere_bare h outer hitem) (by simp [isIdleOption])
  · obtain ⟨_, _, _, rfl, -⟩ | ⟨rfl, -⟩ | ⟨_, rfl, -⟩ | ⟨label', guard', rfl, rfl, -⟩ := hline.opening_cases
    · exact absurd hheader (by simp [header?])
    · exact absurd hheader (by simp [header?])
    · exact absurd hheader (by simp [header?])
    · obtain ⟨hlabel, rfl, rfl⟩ := Header.option.inj (Option.some.inj hheader)
      obtain rfl := Option.some.inj hlabel
      exact leadsNowhere_block_iff hbody outer _ _ _ _ _

/-- Each choice of a statement of the document leads nowhere exactly if it comes from an option with
an idle body. -/
theorem every_choices {items : List Statement}
    (hitems : ∀ item ∈ items, item ∈ trees (s.document tabWidth).statements) :
    ∀ c ∈ s.choices items, c.Every fun c => c.LeadsNowhere ↔ s.IsIdleIn (s.document tabWidth) c := by
  refine choices_all mem_trees_items ?_ hitems
  intro outer item label guard target hitem hheader hinner
  have hmakes : s.MakesChoice item (s.optionOf outer item label guard target) :=
    ⟨outer, label, guard, target, hheader, rfl⟩
  refine .intro ⟨fun hnowhere => ?_, ?_⟩ hinner
  · exact ⟨item, hitem, (leadsNowhere_iff h hitem hmakes).mp hnowhere, hmakes⟩
  · rintro ⟨other, hother, hidle, hmakes'⟩
    exact (leadsNowhere_iff h hother hmakes').mpr hidle

theorem every_walk : ∀ v ∈ (s.analyse tabWidth).script.walk, ∀ c ∈ v.node.choices,
    c.Every fun c => c.LeadsNowhere ↔ s.IsIdleIn (s.document tabWidth) c := by
  intro v hv
  obtain ⟨item, hitem, hmakes⟩ := s.makes_walk tabWidth v hv
  exact hmakes.forall_choices (every_choices h (mem_trees_items item hitem))

end Choices

end Source

end BranchingStory
