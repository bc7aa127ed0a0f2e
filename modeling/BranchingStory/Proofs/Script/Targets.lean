import BranchingStory.Proofs.Document.Placement
import BranchingStory.Proofs.Script.Making
import BranchingStory.Proofs.Script.Walk

/-! # Names and targets of a script

The names in a script are words of its source, and so are the targets of its options. Where the checks
have nothing to say, each target is one of the names. -/

namespace BranchingStory
open Text Token
set_option autoImplicit false

/-! ## Statements with targets that are names -/

/-- Is the name of the header a word, and is its target a word among the names? -/
def Header.Aimed (names : List String) : Header → Prop
  | .declaration _ name _ => ∀ n ∈ name, IsName n.node
  | .option _ _ target => ∀ n ∈ target, IsName n.node ∧ n.node ∈ names
  | _ => True

/-- Is this so for all headers in the statement? -/
inductive Statement.Aimed (names : List String) : Statement → Prop
  | intro {item : Statement} (header : ∀ header ∈ item.header?, header.Aimed names)
      (items : ∀ inner ∈ item.items, Aimed names inner) : Aimed names item

theorem Statement.Aimed.inner {names : List String} {item : Statement} (h : item.Aimed names) :
    ∀ inner ∈ item.items, inner.Aimed names := by
  cases h with
  | intro _ hitems => exact hitems

theorem Statement.Aimed.of_header? {names : List String} {item : Statement} {header : Header}
    (h : item.Aimed names) (hheader : item.header? = some header) : header.Aimed names := by
  cases h with
  | intro hall _ => exact hall header hheader

/-- Is the target of the choice a word among the names, and are those of the choices in it? -/
inductive Choice.Aimed (names : List String) : Choice → Prop
  | intro {c : Choice} (htarget : ∀ t ∈ c.target, IsName t ∧ t ∈ names)
      (hinner : ∀ d ∈ c.choices, Aimed names d) : Aimed names c

theorem Choice.Aimed.target {names : List String} {c : Choice} (h : c.Aimed names) {t : String}
    (ht : c.target = some t) : IsName t ∧ t ∈ names := by
  cases h with
  | intro htarget _ => exact htarget t ht

theorem Choice.Aimed.inner {names : List String} {c : Choice} (h : c.Aimed names) :
    ∀ d ∈ c.choices, d.Aimed names := by
  cases h with
  | intro _ hinner => exact hinner

/-- A word is its own target. -/
theorem Choice.explicitTarget?_eq {c : Choice} (h : ∀ t ∈ c.target, IsName t) : c.explicitTarget? = c.target := by
  rw [explicitTarget?]
  cases hc : c.target with
  | none => rfl
  | some target =>
    have hname := h target hc
    simp [hname.trimString_eq, hname.ne_empty]

theorem explicitTarget?_of_aimed {names : List String} {c : Choice} (h : c.Aimed names) :
    c.explicitTarget? = c.target :=
  Choice.explicitTarget?_eq fun _ ht => (h.target ht).1

/-- Is the node a declaration with a word for its name, unless it has none, and are its choices aimed? -/
structure Node.Aimed (names : List String) (n : Node) : Prop where
  name : n.id = "" ∨ IsName n.id ∧ n.kind.isNarrative = true
  choices : ∀ c ∈ n.choices, c.Aimed names

namespace Source
open Statement
variable {s : Source} {ts : List Lexeme} {names : List String}

/-! ## From the checks -/

/-- Has a check found no error? -/
def Clean (fs : List Found) : Prop := ∀ f ∈ fs, f.finding.severity ≠ .error

theorem mem_of_targetFindings {target : Name} (h : Clean (s.targetFindings names target))
    (hname : target.node ≠ "") : target.node ∈ names := by
  by_cases hmem : target.node ∈ names
  · exact hmem
  · rw [targetFindings, if_pos ⟨hname, hmem⟩] at h
    exact absurd rfl (h _ List.mem_cons_self)

theorem headerAimed (hwords : ∀ name span, ⟨.word name, span⟩ ∈ ts → IsName name) {header : Header}
    (hnamed : header.Named ts) {inBeat hasBlock : Bool} {span : Span}
    (h : Clean (s.headerFindings names inBeat hasBlock span header)) : header.Aimed names := by
  cases header with
  | declaration kind name guard => exact fun n hn => hwords _ _ (hnamed n hn)
  | option label guard target =>
    rintro n ⟨⟩
    have hword := hwords _ _ (hnamed n rfl)
    exact ⟨hword, mem_of_targetFindings h hword.ne_empty⟩
  | config => trivial
  | choice guard => trivial

mutual

theorem aimed_of_useFindings (hwords : ∀ name span, ⟨.word name, span⟩ ∈ ts → IsName name) {lo hi : Nat}
    (inBeat : Bool) (item : Statement) (hplaced : Placed s.text ts lo hi item)
    (h : Clean (s.useFindings names inBeat item)) : item.Aimed names := by
  match item with
  | .line form span issues => exact .intro (by simp [header?]) (by simp [items])
  | .bare header span issues =>
    obtain ⟨-, -, hnamed⟩ := hplaced
    rw [useFindings] at h
    refine .intro ?_ (by simp [items])
    rintro _ ⟨⟩
    exact headerAimed hwords hnamed h
  | .block header extent items span issues =>
    obtain ⟨-, -, hnamed, hitems⟩ := hplaced
    rw [useFindings] at h
    obtain ⟨hheader, hbody⟩ := List.forall_mem_append.mp h
    refine .intro ?_ (aimed_of_usesFindings hwords _ items hitems hbody)
    rintro _ ⟨⟩
    exact headerAimed hwords hnamed hheader

theorem aimed_of_usesFindings (hwords : ∀ name span, ⟨.word name, span⟩ ∈ ts → IsName name) {lo hi : Nat}
    (inBeat : Bool) (items : List Statement) (hplaced : AllPlaced s.text ts lo hi items)
    (h : Clean (s.usesFindings names inBeat items)) : ∀ item ∈ items, item.Aimed names := by
  match items with
  | [] => simp
  | item :: rest =>
    obtain ⟨middle, -, hitem, hrest⟩ := hplaced
    rw [usesFindings] at h
    obtain ⟨hfirst, hmore⟩ := List.forall_mem_append.mp h
    exact List.forall_mem_cons.mpr ⟨aimed_of_useFindings hwords inBeat item hitem hfirst,
      aimed_of_usesFindings hwords inBeat rest hrest hmore⟩

end

/-! ## To the script -/

theorem aimed_choices {items : List Statement} (h : ∀ item ∈ items, item.Aimed names) :
    ∀ c ∈ s.choices items, c.Aimed names := by
  refine choices_all (fun item hitem => hitem.inner) ?_ h
  intro outer item label guard target hitem hheader hinner
  refine .intro ?_ hinner
  intro t ht
  obtain ⟨n, hn, rfl⟩ := Option.map_eq_some_iff.mp ht
  exact hitem.of_header? hheader n hn

theorem aimed_nodes (place : Place) {items : List Statement} (h : ∀ item ∈ items, item.Aimed names) :
    ∀ n ∈ s.nodes place items, n.Every (·.Aimed names) := by
  refine nodes_all (fun item hitem => hitem.inner) ?_ place h
  intro item n hitem hmakes hchildren
  refine .intro ⟨?_, hmakes.forall_choices (aimed_choices hitem.inner)⟩ hchildren
  rcases hmakes.name with hunnamed | ⟨kind, name, guard, hheader, hid, hkind⟩
  · exact .inl hunnamed
  · rw [hid, hkind]
    refine .inr ⟨hitem.of_header? hheader name rfl, ?_⟩
    cases kind <;> rfl

/-! ## The whole script -/

theorem clean_findings {tabWidth : Nat} (h : (s.analyse tabWidth).hasErrors = false) :
    Clean (s.findings (s.document tabWidth) (s.script (s.document tabWidth))) := by
  intro f hf herror
  have hnone := List.any_eq_false.mp h (.ofFound f) (List.mem_map_of_mem hf)
  simp [Diagnostic.isError, Diagnostic.ofFound, herror] at hnone

theorem clean_usesFindings {tabWidth : Nat} (h : (s.analyse tabWidth).hasErrors = false) :
    Clean (s.usesFindings (s.analyse tabWidth).script.targets false (s.document tabWidth).statements) := by
  have hall := clean_findings h
  rw [findings, meaningFindings] at hall
  exact (List.forall_mem_append.mp (List.forall_mem_append.mp hall).2).2

theorem aimed_document {tabWidth : Nat} (h : (s.analyse tabWidth).hasErrors = false) :
    ∀ item ∈ (s.document tabWidth).statements, item.Aimed (s.analyse tabWidth).script.targets := by
  have hwords : ∀ name span, ⟨.word name, span⟩ ∈ tokens s tabWidth → IsName name :=
    fun _ _ hmem => isName_of_mem_tokens hmem
  exact aimed_of_usesFindings hwords false _ (s.document_placed tabWidth).1 (clean_usesFindings h)

/-- Where no error is found, each target in the script is one of its names. -/
theorem aimed_walk {tabWidth : Nat} (h : (s.analyse tabWidth).hasErrors = false) :
    ∀ v ∈ (s.analyse tabWidth).script.walk, v.node.Aimed (s.analyse tabWidth).script.targets :=
  Script.forall_walk (aimed_nodes .topLevel (aimed_document h))

end Source

end BranchingStory
