import BranchingStory.Proofs.Json.Records
import BranchingStory.Script.Json

/-! # Stored scripts

The readers of positions, actions, choices, nodes and scripts accept what was written of a value exactly
when the document fits the budget and every number in it is below `2 ^ 64`, and then give back the value
itself. -/

namespace BranchingStory
set_option autoImplicit false
open Json

/-! ## Positions and ranges -/

theorem Position.toJson_eq (p : Position) :
    p.toJson = objectOf [("offset", some (.natural p.offset)), ("line", some (.natural p.line)),
      ("column", some (.natural p.column))] := rfl

theorem Position.readsBack (p : Position) : ReadsBack p.toJson Position.ofJson? p := by
  intro budget y
  have hrecord := record?_reread [] ["offset", "line", "column"] [("offset", some (.natural p.offset)),
    ("line", some (.natural p.line)), ("column", some (.natural p.column))] rfl (by decide)
  rw [← toJson_eq] at hrecord
  cases budget with
  | zero => simp [Position.ofJson?, toJson_eq]
  | succ budget =>
    have hnatural := fun n => readsBack_natural n budget
    rw [toJson_eq, fits_objectOf, ← toJson_eq]
    simp only [Position.ofJson?, hrecord, List.length_nil, List.drop_zero, List.map_cons, List.map_nil,
      Option.map_some, Option.bind_eq_bind, Option.bind_some, Option.bind_eq_some_iff, hnatural,
      Option.pure_def, Option.some.injEq, List.forall_mem_cons, Option.mem_some_iff, forall_eq']
    constructor
    · rintro ⟨_, ⟨rfl, hoffset⟩, _, ⟨rfl, hline⟩, _, ⟨rfl, hcolumn⟩, rfl⟩
      exact ⟨rfl, hoffset, hline, hcolumn, by simp⟩
    · rintro ⟨rfl, hoffset, hline, hcolumn, -⟩
      exact ⟨_, ⟨rfl, hoffset⟩, _, ⟨rfl, hline⟩, _, ⟨rfl, hcolumn⟩, rfl⟩

theorem Range.toJson_eq (r : Range) :
    r.toJson = objectOf [("start", some r.start.toJson), ("end", some r.stop.toJson)] := rfl

theorem Range.readsBack (r : Range) : ReadsBack r.toJson Range.ofJson? r := by
  intro budget y
  have hrecord := record?_reread [] ["start", "end"] [("start", some r.start.toJson),
    ("end", some r.stop.toJson)] rfl (by decide)
  rw [← toJson_eq] at hrecord
  cases budget with
  | zero => simp [Range.ofJson?, toJson_eq]
  | succ budget =>
    have hstart := r.start.readsBack budget
    have hstop := r.stop.readsBack budget
    rw [toJson_eq, fits_objectOf, ← toJson_eq]
    simp only [Range.ofJson?, hrecord, List.length_nil, List.drop_zero, List.map_cons, List.map_nil,
      Option.map_some, Option.bind_eq_bind, Option.bind_some, Option.bind_eq_some_iff, hstart, hstop,
      Option.pure_def, Option.some.injEq, List.forall_mem_cons, Option.mem_some_iff, forall_eq']
    constructor
    · rintro ⟨_, ⟨rfl, hstart⟩, _, ⟨rfl, hstop⟩, rfl⟩
      exact ⟨rfl, hstart, hstop, by simp⟩
    · rintro ⟨rfl, hstart, hstop, -⟩
      exact ⟨_, ⟨rfl, hstart⟩, _, ⟨rfl, hstop⟩, rfl⟩

/-! ## Actions -/

namespace Action

/-- The object that a deed with these parts and a range are written as. -/
def written (parts : String × List (String × Option Json)) (range : Json) : Json :=
  objectOf (("type", some (.string parts.1)) :: parts.2 ++ [("range", some range)])

theorem toJson_eq (a : Action) : a.toJson = written (parts a.deed) a.range.toJson := rfl

theorem tagged?_written (d : Deed) (range : Json) :
    tagged? (written (parts d) range).reread = some ((parts d).1, (written (parts d) range).reread) := by
  rw [written, reread_objectOf, objectOf_eq, tagged?]
  cases d with
  | emit event payload => cases payload <;> rfl
  | _ => rfl

theorem record?_written (d : Deed) (range : Json) :
    record? ((parts d).2.map (·.1) ++ ["range"]) (written (parts d) range).reread =
      some (((parts d).2.map fun (_, j) => j.map reread) ++ [some range.reread]) := by
  have hnodup : (["type"] ++ ((parts d).2.map (·.1) ++ ["range"])).Nodup := by
    cases d <;> simp [parts]
  have hrecord := record?_reread ["type"] _ (("type", some (.string (parts d).1)) :: (parts d).2 ++
    [("range", some range)]) (by simp) hnodup
  rw [written, hrecord]
  simp

theorem deed?_written (d : Deed) (range : Json) :
    deed? (parts d).1 (written (parts d) range).reread = some (d, range.reread) := by
  have hrecord := record?_written d range
  cases d <;>
    simp only [parts, List.map_cons, List.map_nil, List.cons_append, List.nil_append] at hrecord ⊢ <;>
    simp [deed?, hrecord, -Option.map_map]

/-- Only the range of an action can be too large. -/
theorem fits_iff (a : Action) (budget : Nat) : Fits (budget + 1) a.toJson ↔ Fits budget a.range.toJson := by
  have hparts : ∀ field ∈ (parts a.deed).2, ∀ j ∈ field.2, Fits budget j := by
    cases a.deed <;> simp [parts]
  rw [toJson_eq, written, fits_objectOf]
  constructor
  · intro h
    exact h ("range", some a.range.toJson) (by simp) _ rfl
  · intro h field hfield j hj
    rcases List.mem_append.mp hfield with hfield | hfield
    · rcases List.mem_cons.mp hfield with rfl | hfield
      · obtain rfl : Json.string (parts a.deed).1 = j := Option.some.inj hj
        exact fits_string _ _
      · exact hparts field hfield j hj
    · obtain rfl : field = ("range", some a.range.toJson) := by simpa using hfield
      obtain rfl : a.range.toJson = j := Option.some.inj hj
      exact h

theorem readsBack (a : Action) : ReadsBack a.toJson Action.ofJson? a := by
  intro budget y
  have htagged := tagged?_written a.deed a.range.toJson
  have hdeed := deed?_written a.deed a.range.toJson
  have hrange := a.range.readsBack budget
  rw [← toJson_eq] at htagged hdeed
  by_cases hbad : budget < a.toJson.depth ∨ ¬ a.toJson.reread.held
  · have hnot : ¬ Fits budget a.toJson := by
      intro hfits
      have hheld : a.toJson.reread.held := by
        rw [reread_of_exact _ hfits.2]
        exact held_of_exact _ hfits.2
      exact hbad.elim (fun hlt => absurd hfits.1 (Nat.not_le_of_lt hlt)) fun h => h hheld
    simp only [Action.ofJson?, depth_reread, if_pos hbad, Option.bind_eq_bind, Option.bind_none, hnot,
      and_false, reduceCtorEq]
  · have hdepth : a.toJson.depth ≤ budget := by
      rw [not_or, Nat.not_lt] at hbad
      exact hbad.1
    have hfits : Fits budget a.range.toJson ↔ Fits budget a.toJson :=
      ⟨fun h => ⟨hdepth, ((a.fits_iff budget).mpr h).2⟩,
        fun h => (a.fits_iff budget).mp ⟨Nat.le_succ_of_le h.1, h.2⟩⟩
    simp only [Action.ofJson?, depth_reread, hbad, if_false, htagged, hdeed, Option.bind_eq_bind,
      Option.bind_some, Option.bind_eq_some_iff, hrange, hfits, Option.pure_def, Option.some.injEq]
    constructor
    · rintro ⟨_, ⟨rfl, h⟩, rfl⟩
      exact ⟨rfl, h⟩
    · rintro ⟨rfl, h⟩
      exact ⟨_, ⟨rfl, h⟩, rfl⟩

theorem readsBack_list (actions : List Action) :
    ReadsBack (.array (actions.map toJson)) (fun budget => listOf? budget ofJson?) actions :=
  Json.readsBack_list fun a _ => a.readsBack

end Action

/-! ## Choices -/

namespace Choice

theorem listToJson_eq (cs : List Choice) : listToJson cs = cs.map toJson := by
  induction cs with
  | nil => rfl
  | cons c rest ih => rw [listToJson, ih, List.map_cons]

theorem listOfJson?_eq (budget : Nat) : listOfJson? budget = listOf? budget ofJson? := by
  funext j
  cases budget <;> cases j <;> simp [listOfJson?, listOf?]

def fields (label : String) (target guard : Option String) (actions choices range : Json) :
    List (String × Option Json) :=
  [("label", some (.string label)), ("target", target.map .string), ("when", guard.map .string),
    ("actions", some actions), ("choices", some choices), ("range", some range)]

theorem toJson_eq (label : String) (target guard : Option String) (actions : List Action) (choices : List Choice)
    (range : Range) : toJson ⟨label, target, guard, actions, choices, range⟩ =
      objectOf (fields label target guard (.array (actions.map Action.toJson)) (.array (choices.map toJson))
        range.toJson) := by
  rw [toJson, listToJson_eq]
  rfl

theorem readsBack_of_choices (c : Choice) (h : ∀ inner ∈ c.choices, ReadsBack inner.toJson ofJson? inner) :
    ReadsBack c.toJson ofJson? c := by
  obtain ⟨label, target, guard, actions, choices, range⟩ := c
  intro budget y
  have hrecord := record?_reread [] ["label", "target", "when", "actions", "choices", "range"] (fields label
    target guard (.array (actions.map Action.toJson)) (.array (choices.map toJson)) range.toJson) rfl
    (by decide)
  rw [toJson_eq]
  cases budget with
  | zero => simp [ofJson?]
  | succ budget =>
    have hactions := Action.readsBack_list actions budget
    have hchoices : ∀ found, listOf? budget ofJson? (Json.array (choices.map toJson)).reread = some found ↔
        found = choices ∧ Fits budget (.array (choices.map toJson)) := readsBack_list h budget
    have hrange := range.readsBack budget
    rw [fits_objectOf]
    simp only [fields, List.length_nil, List.drop_zero, List.map_cons, List.map_nil, Option.map_some,
      reread_string] at hrecord ⊢
    simp only [ofJson?, hrecord, Option.bind_eq_bind, Option.bind_some, string?_string, optional?_string,
      defaulted?, listOfJson?_eq, Option.bind_eq_some_iff, hactions, hchoices, hrange, Option.pure_def,
      Option.some.injEq, List.forall_mem_cons, Option.mem_some_iff, forall_eq', fits_string, true_and]
    constructor
    · rintro ⟨_, ⟨rfl, hactions⟩, _, ⟨rfl, hchoices⟩, _, ⟨rfl, hrange⟩, rfl⟩
      exact ⟨rfl, fits_optional _ _, fits_optional _ _, hactions, hchoices, hrange, by simp⟩
    · rintro ⟨rfl, -, -, hactions, hchoices, hrange, -⟩
      exact ⟨_, ⟨rfl, hactions⟩, _, ⟨rfl, hchoices⟩, _, ⟨rfl, hrange⟩, rfl⟩

mutual

theorem readsBack (c : Choice) : ReadsBack c.toJson ofJson? c := by
  match c with
  | ⟨label, target, guard, actions, choices, range⟩ =>
    exact readsBack_of_choices _ (readsBack_all choices)

theorem readsBack_all (cs : List Choice) : ∀ c ∈ cs, ReadsBack c.toJson ofJson? c := by
  match cs with
  | [] => simp
  | c :: rest => exact List.forall_mem_cons.mpr ⟨readsBack c, readsBack_all rest⟩

end

theorem readsBack_list (cs : List Choice) :
    ReadsBack (.array (cs.map toJson)) (fun budget => listOf? budget ofJson?) cs :=
  Json.readsBack_list fun c _ => c.readsBack

end Choice

/-! ## Nodes -/

theorem NodeKind.readsBack (kind : NodeKind) :
    ReadsBack (.string kind.tag) (fun budget => choice? budget ofTag?) kind := by
  intro budget y
  cases kind <;> simp [choice?, ofTag?, tag, eq_comm]

namespace Node

theorem listToJson_eq (ns : List Node) : listToJson ns = ns.map toJson := by
  induction ns with
  | nil => rfl
  | cons n rest ih => rw [listToJson, ih, List.map_cons]

theorem listOfJson?_eq (budget : Nat) : listOfJson? budget = listOf? budget ofJson? := by
  funext j
  cases budget <;> cases j <;> simp [listOfJson?, listOf?]

def fields (id kind : String) (guard : Option String) (body : String)
    (actions children choices range : Json) : List (String × Option Json) :=
  [("id", some (.string id)), ("kind", some (.string kind)), ("when", guard.map .string),
    ("body", some (.string body)), ("actions", some actions), ("children", some children),
    ("choices", some choices), ("range", some range)]

theorem toJson_eq (id : String) (kind : NodeKind) (guard : Option String) (body : String) (actions : List Action)
    (children : List Node) (choices : List Choice) (range : Range) :
    toJson ⟨id, kind, guard, body, actions, children, choices, range⟩ =
      objectOf (fields id kind.tag guard body (.array (actions.map Action.toJson))
        (.array (children.map toJson)) (.array (choices.map Choice.toJson)) range.toJson) := by
  rw [toJson, listToJson_eq, Choice.listToJson_eq]
  rfl

theorem readsBack_of_children (n : Node) (h : ∀ child ∈ n.children, ReadsBack child.toJson ofJson? child) :
    ReadsBack n.toJson ofJson? n := by
  obtain ⟨id, kind, guard, body, actions, children, choices, range⟩ := n
  intro budget y
  have hrecord := record?_reread [] ["id", "kind", "when", "body", "actions", "children", "choices", "range"]
    (fields id kind.tag guard body (.array (actions.map Action.toJson)) (.array (children.map toJson))
      (.array (choices.map Choice.toJson)) range.toJson) rfl (by decide)
  rw [toJson_eq]
  cases budget with
  | zero => simp [ofJson?]
  | succ budget =>
    have hkind := kind.readsBack budget
    have hactions := Action.readsBack_list actions budget
    have hchildren : ∀ found, listOf? budget ofJson? (Json.array (children.map toJson)).reread = some found ↔
        found = children ∧ Fits budget (.array (children.map toJson)) := Json.readsBack_list h budget
    have hchoices := Choice.readsBack_list choices budget
    have hrange := range.readsBack budget
    rw [fits_objectOf]
    simp only [fields, List.length_nil, List.drop_zero, List.map_cons, List.map_nil, Option.map_some,
      reread_string] at hrecord hkind ⊢
    simp only [ofJson?, hrecord, Option.bind_eq_bind, Option.bind_some, string?_string, optional?_string,
      defaulted?, listOfJson?_eq, Option.bind_eq_some_iff, hkind, hactions, hchildren, hchoices, hrange,
      Option.pure_def, Option.some.injEq, List.forall_mem_cons, Option.mem_some_iff, forall_eq', fits_string,
      true_and, and_true, exists_eq_left]
    constructor
    · rintro ⟨_, ⟨rfl, hactions⟩, _, ⟨rfl, hchildren⟩, _, ⟨rfl, hchoices⟩, _, ⟨rfl, hrange⟩, rfl⟩
      exact ⟨rfl, fits_optional _ _, hactions, hchildren, hchoices, hrange, by simp⟩
    · rintro ⟨rfl, -, hactions, hchildren, hchoices, hrange, -⟩
      exact ⟨_, ⟨rfl, hactions⟩, _, ⟨rfl, hchildren⟩, _, ⟨rfl, hchoices⟩, _, ⟨rfl, hrange⟩, rfl⟩

mutual

theorem readsBack (n : Node) : ReadsBack n.toJson ofJson? n := by
  match n with
  | ⟨id, kind, guard, body, actions, children, choices, range⟩ =>
    exact readsBack_of_children _ (readsBack_all children)

theorem readsBack_all (ns : List Node) : ∀ n ∈ ns, ReadsBack n.toJson ofJson? n := by
  match ns with
  | [] => simp
  | n :: rest => exact List.forall_mem_cons.mpr ⟨readsBack n, readsBack_all rest⟩

end

theorem readsBack_list (ns : List Node) :
    ReadsBack (.array (ns.map toJson)) (fun budget => listOf? budget ofJson?) ns :=
  Json.readsBack_list fun n _ => n.readsBack

end Node

/-! ## Scripts -/

namespace Script

theorem toJson_eq (metadata : Dictionary String) (nodes : List Node) (range : Range) :
    toJson ⟨metadata, nodes, range⟩ = objectOf [("type", some (.string "Script")),
      ("metadata", some (.object (metadata.entries.map fun entry => (entry.1, .string entry.2)))),
      ("nodes", some (.array (nodes.map Node.toJson))), ("range", some range.toJson)] := by
  rw [toJson, Node.listToJson_eq]
  rfl

theorem readsBack (s : Script) : ReadsBack s.toJson ofJson? s := by
  obtain ⟨metadata, nodes, range⟩ := s
  intro budget y
  have hrecord := record?_reread ["type"] ["metadata", "nodes", "range"] [("type", some (.string "Script")),
      ("metadata", some (.object (metadata.entries.map fun entry => (entry.1, .string entry.2)))),
      ("nodes", some (.array (nodes.map Node.toJson))), ("range", some range.toJson)] rfl (by decide)
  rw [toJson_eq]
  cases budget with
  | zero => simp [ofJson?]
  | succ budget =>
    have hmetadata := readsBack_dictionary readsBack_string metadata budget
    have hnodes := Node.readsBack_list nodes budget
    have hrange := range.readsBack budget
    rw [fits_objectOf]
    simp only [List.length_cons, List.length_nil, List.drop_succ_cons, List.drop_zero, List.map_cons,
      List.map_nil, Option.map_some] at hrecord ⊢
    simp only [ofJson?, hrecord, Option.bind_eq_bind, Option.bind_some, defaulted?, Option.bind_eq_some_iff,
      hmetadata, hnodes, hrange, Option.pure_def, Option.some.injEq, List.forall_mem_cons,
      Option.mem_some_iff, forall_eq', fits_string, true_and]
    constructor
    · rintro ⟨_, ⟨rfl, hmetadata⟩, _, ⟨rfl, hnodes⟩, _, ⟨rfl, hrange⟩, rfl⟩
      exact ⟨rfl, hmetadata, hnodes, hrange, by simp⟩
    · rintro ⟨rfl, hmetadata, hnodes, hrange, -⟩
      exact ⟨_, ⟨rfl, hmetadata⟩, _, ⟨rfl, hnodes⟩, _, ⟨rfl, hrange⟩, rfl⟩

/-- What loading a stored script gives is the script, and it is loaded exactly when its document fits. -/
theorem load?_store (s t : Script) : load? s.store = some t ↔ t = s ∧ Fits maxDepth s.toJson := by
  rw [load?, store, String.toList_ofList, parse?_print]
  exact s.readsBack maxDepth t

end Script

end BranchingStory
