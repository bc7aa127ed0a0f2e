import BranchingStory.Proofs.Document.Sheets
import BranchingStory.Proofs.Draft.Declarations
import BranchingStory.Proofs.Starter.Lines

/-! # The story of the starter

The lines of the starter are a passage of the grammar line by line. Its story, whatever its name, has a setting that
names the one scene, and two beats with a choice from the first to the second. -/

namespace BranchingStory
open Text Token Grammar
set_option autoImplicit false

namespace Source
variable {s : Source} {targets : List String} {items inside : List Statement} {extent span : Span}

theorem Gives.config {body : String} {actions : List Action} {children : List Node}
    (hbody : s.excerpt extent = body) (hinside : s.Gives targets .config false inside { actions })
    (h : s.Gives targets .narrative false items { children }) :
    s.Gives targets .narrative false (.block .config extent inside span [] :: items)
      { children := ⟨"", .config, none, body, actions, [], [], s.range span⟩ :: children } where
  actions := h.actions
  children := by
    have hnode : s.nodeOf .narrative (.block .config extent inside span []) =
        [⟨"", .config, none, body, actions, [], [], s.range span⟩] := by
      rw [nodeOf, if_pos (.inl rfl), hinside.actions, hinside.children, hinside.choices, hbody]
      rfl
    rw [nodes, hnode]
    exact congrArg _ h.children
  choices := h.choices
  findings := by
    have hopens : opensBeat .config = false := rfl
    rw [usesFindings, useFindings, hopens, h.findings, Bool.false_or, hinside.findings]
    rfl

theorem Gives.part {place : Place} {kind : DeclarationKind} {name : Name} {id : String} {inBeat : Bool}
    {actions : List Action} {choices : List Choice} {within children : List Node} (hplace : place ≠ .choice)
    (hname : name.node = id) (hopens : opensBeat (.declaration kind (some name) none) = inBeat)
    (hinside : s.Gives targets .narrative inBeat inside ⟨actions, within, choices⟩)
    (h : s.Gives targets place false items { children }) :
    s.Gives targets place false (.block (.declaration kind (some name) none) extent inside span [] :: items)
      { children :=
          ⟨id, kind.nodeKind, none, s.excerpt extent, actions, within, choices, s.range span⟩ :: children } :=
  .declaration hplace hname hopens rfl hinside h

end Source

namespace Starter
variable {s : Source} {close : List Nat → Nat → List Lexeme} {offset width : Nat} {ys : List Strip}

/-! ## Lines -/

theorem hasWords_ofRow (width : Nat) (r : Row) {offset : Nat} : (Strip.ofRow width r).HasWords offset :=
  List.cons_ne_nil _ _

theorem ascends_ofRow {levels : List Nat} (r : Row) (h : width ≤ levels.headD 0) :
    Ascends levels (.ofRow width r :: ys) := by
  rintro x ⟨⟩
  exact ⟨fun _ => hasWords_ofRow width r, h⟩

theorem ascends_nil (levels : List Nat) : Ascends levels [] := by
  rintro x ⟨⟩

theorem exists_declarationLine {kind : DeclarationKind} {context : Context} (name : String)
    (hallowed : context.allows (.declaration kind) = true) : ∃ n : Name, n.node = name ∧
      LineIn context ((Strip.ofRow width (.heading (.word (Draft.keyword kind)) [.word name])).place offset)
        (.opening (.declaration kind (some n) none) kind.context true) := by
  cases kind with
  | story => exact ⟨⟨name, _⟩, rfl, Draft.lineIn_keyword rfl hallowed (@LineForm.story _ ⟨name, _⟩ _)⟩
  | scene =>
    exact ⟨⟨name, _⟩, rfl,
      Draft.lineIn_keyword rfl hallowed (@LineForm.part _ _ ⟨name, _⟩ [] none _ (by decide) .absent)⟩
  | beat =>
    exact ⟨⟨name, _⟩, rfl,
      Draft.lineIn_keyword rfl hallowed (@LineForm.part _ _ ⟨name, _⟩ [] none _ (by decide) .absent)⟩

/-- Is the line read as a statement of a beat that does the deed? -/
def Does (s : Source) (x : Strip) (deed : Deed) : Prop :=
  ∀ offset, ∃ form, LineIn .beat (x.place offset) (.line form) ∧ s.deed? form = some deed ∧
    ∀ targets, s.lineFindings targets form = []

theorem does_say (speaker text : String) :
    Does s (.ofRow width (.sentence (.word "say") [.word speaker, .string text])) (.say speaker text) := fun _ =>
  ⟨_, Draft.lineIn_keyword rfl rfl (@LineForm.say _ ⟨speaker, _⟩ ⟨text, _⟩), rfl, fun _ => rfl⟩

theorem does_stage (text : String) : Does s (.ofRow width (.sentence (.word "stage") [.string text])) (.stage text) :=
  fun _ => ⟨_, Draft.lineIn_keyword rfl rfl (@LineForm.stage _ ⟨text, _⟩), rfl, fun _ => rfl⟩

theorem does_finish : Does s (.ofRow width (.sentence (.word "end") [])) .finish := fun _ =>
  ⟨_, Draft.lineIn_keyword rfl rfl .finish, rfl, fun _ => rfl⟩

theorem lineIn_choice : LineIn .beat ((Strip.ofRow width (.heading (.word "choice") [])).place offset)
    (.opening (.choice none) .choice true) :=
  Draft.lineIn_keyword rfl rfl (@LineForm.choice _ [] none _ .absent)

theorem exists_optionLine (label target : String) : ∃ l t : Name, l.node = label ∧ t.node = target ∧
    LineIn .choice ((Strip.ofRow width (.sentence (.word "option") [.string label, .word "goto", .word target])).place
      offset) (.bare (.option (some l) none (some t))) :=
  ⟨⟨label, _⟩, ⟨target, _⟩, rfl, rfl, Draft.lineIn_keyword rfl rfl
    (@LineForm.option _ ⟨label, _⟩ [] _ _ _ .absent (@OptionEnd.goto _ _ _ ⟨target, _⟩))⟩

/-! ## Blocks -/

/-- The option of the first beat, in its choice block. -/
theorem exists_options (s : Source) (levels : List Nat) (offset : Nat) (ys : List Strip) : ∃ p stop,
    SheetReads close .choice (8 :: levels) offset (.ofRow 8 continuation :: .blank :: ys) p stop ys ∧
      ∃ range : Range, ∀ targets, "next_step" ∈ targets → s.Offers targets none p.statements
        [⟨"Continue", some "next_step", none, [], [], range⟩] := by
  obtain ⟨label, target, hlabel, htarget, hoption⟩ := exists_optionLine "Continue" "next_step"
  exact ⟨_, _, .bare rfl hoption (.blank .done), _, fun targets htargets =>
    .jump hlabel rfl htarget htargets (.nil none)⟩

theorem exists_arrival (s : Source) (hclose : Closing close) (hys : Ascends [4, 2] ys) : ∃ p stop,
    SheetReads close .beat [6, 4, 2] offset (arrivalStrips ++ ys) p stop ys ∧ ∃ say stage option : Range,
      ∀ targets, "next_step" ∈ targets → s.Gives targets .narrative true p.statements {
        actions := [⟨.say "narrator" "Welcome to your new Skroll project.", say⟩,
          ⟨.stage "Add beats, scenes, and choices to craft your branching narrative.", stage⟩]
        choices := [⟨"Continue", some "next_step", none, [], [], option⟩] } := by
  have hclosing : Ascends [6, 4, 2] ys := fun x hx => ⟨(hys x hx).1, Nat.le_trans (hys x hx).2 (by decide)⟩
  obtain ⟨say, hsay, hsayDeed, hsayFound⟩ :=
    @does_say s 6 "narrator" "Welcome to your new Skroll project." (offset + 6)
  obtain ⟨stage, hstage, hstageDeed, hstageFound⟩ :=
    @does_stage s 6 "Add beats, scenes, and choices to craft your branching narrative." _
  obtain ⟨p, middle, hinside, range, hoffers⟩ := exists_options s [6, 4, 2] _ ys
  obtain ⟨opening, closing, -, hchoice⟩ := SheetReads.block hclose rfl lineIn_choice (by decide)
    (hasWords_ofRow _ _) hinside hclosing .done
  have hgives (targets : List String) (htargets : "next_step" ∈ targets) (extent span : Span) :
      s.Gives targets .narrative true [.block (.choice none) extent p.statements span []]
        { choices := [⟨"Continue", some "next_step", none, [], [], range⟩] ++ [] } :=
    .choice rfl (hoffers targets htargets) .nil
  exact ⟨_, _, .line rfl hsay (.line rfl hstage hchoice), _, _, _, fun targets htargets =>
    .line hsayDeed (hsayFound targets) (.line hstageDeed (hstageFound targets) (hgives targets htargets _ _))⟩

theorem exists_step (s : Source) : ∃ p stop,
    SheetReads close .beat [6, 4, 2] offset stepStrips p stop [] ∧ ∃ say finish : Range,
      ∀ targets, s.Gives targets .narrative true p.statements {
        actions := [⟨.say "narrator" "Edit this script to begin your story.", say⟩, ⟨.finish, finish⟩] } := by
  obtain ⟨say, hsay, hsayDeed, hsayFound⟩ :=
    @does_say s 6 "narrator" "Edit this script to begin your story." (offset + 6)
  obtain ⟨ending, hending, hendingDeed, hendingFound⟩ := @does_finish s 6 _
  exact ⟨_, _, .line rfl hsay (.line rfl hending .done), _, _, fun targets =>
    .line hsayDeed (hsayFound targets) (.line hendingDeed (hendingFound targets) .nil)⟩

/-! ## The setting -/

/-- A word that is an expression by itself. -/
theorem spelled_word {stop : Token → Bool} {name : String} (span : Span) (hname : name ∉ reservedWords)
    (hstop : stop (.word name) = false) : Expr.Spelled stop [⟨.word name, span⟩] (.identifier span name) :=
  ⟨.identifier span name, ⟨by simpa [Expr.Phrase.Fits] using hname, rfl⟩, rfl, Nat.zero_le _, by
    simpa [Expr.Phrase.outer] using hstop⟩

theorem exists_settingLine (s : Source) (offset : Nat) : ∃ form deed,
    LineIn .config ((Strip.ofRow 4 setting).place offset) (.line form) ∧ s.deed? form = some deed ∧
      ∀ targets, s.lineFindings targets form = [] :=
  ⟨_, _, @LineIn.intro _ ⟨"starting_scene", _⟩ .assignment _ _ (.inl rfl) rfl
    (.assignment (spelled_word _ (by decide) rfl)), rfl, fun _ => rfl⟩

theorem exists_config (s : Source) (offset : Nat) (ys : List Strip) : ∃ p stop,
    SheetReads close .config [4, 2] offset (.ofRow 4 setting :: .blank :: ys) p stop ys ∧
      Ends p.tokens (offset + 4 + byteLength (setting.line 0) - 1) ∧ ∃ action : Action,
      ∀ targets, s.Gives targets .config false p.statements { actions := [action] } := by
  obtain ⟨form, deed, hline, hdeed, hfound⟩ := exists_settingLine s (offset + 4)
  exact ⟨_, _, .line rfl hline (.blank .done),
    (ends_row apart_setting).marks (by simp [mark, isLayout, Passage.tokens]), _, fun targets =>
      .line hdeed (hfound targets) .nil⟩

/-- The block of the setting is the setting without its indentation. -/
theorem excerpt_setting {offset : Nat} (h : s.Holds offset (Strip.ofRow 4 setting).line) :
    s.excerpt ⟨offset + 4, offset + 4 + byteLength (setting.line 0) - 1⟩ = "starting_scene = opening" := by
  have hholds := Source.Holds.rest h
  rw [byteLength_blanks] at hholds
  rw [Row.byteLength_line]
  exact hholds.front.excerpt_eq

/-! ## The story -/

/-- Are these the beats of the starter? -/
inductive Beats : List Node → Prop
  | intro (body body' : String) (say stage option range say' finish range' : Range) : Beats [
      { id := "arrival", kind := .beat, guard := none, body, children := [], range
        actions := [⟨.say "narrator" "Welcome to your new Skroll project.", say⟩,
          ⟨.stage "Add beats, scenes, and choices to craft your branching narrative.", stage⟩]
        choices := [⟨"Continue", some "next_step", none, [], [], option⟩] },
      { id := "next_step", kind := .beat, guard := none, body := body', children := [], choices := [], range := range'
        actions := [⟨.say "narrator" "Edit this script to begin your story.", say'⟩, ⟨.finish, finish⟩] }]

/-- Is this the story of the starter, under its name? -/
inductive IsStory (name : String) : Node → Prop
  | intro (beats : List Node) (action : Action) (body body' : String) (range range' range'' : Range) (h : Beats beats) :
    IsStory name
      { id := name, kind := .story, guard := none, body, actions := [], choices := [], range
        children := [
          { id := "", kind := .config, guard := none, body := "starting_scene = opening", actions := [action]
            children := [], choices := [], range := range' },
          { id := "opening", kind := .scene, guard := none, body := body', actions := [], children := beats
            choices := [], range := range'' }] }

theorem exists_scene (s : Source) (hclose : Closing close) (offset : Nat) : ∃ p stop,
    SheetReads close .scene [4, 2] offset sceneStrips p stop [] ∧ ∃ beats, Beats beats ∧
      ∀ targets, "next_step" ∈ targets → s.Gives targets .narrative false p.statements { children := beats } := by
  obtain ⟨name, hname, hline⟩ := @exists_declarationLine (offset + 4) 4 .beat .scene "arrival" rfl
  have hbehind (ys : List Strip) := @ascends_ofRow 4 ys [4, 2] (.heading (.word "beat") [.word "next_step"]) (by decide)
  obtain ⟨p, middle, hfirst, say, stage, option, hgives⟩ := exists_arrival s hclose (hbehind stepStrips)
  obtain ⟨name', hname', hline'⟩ := @exists_declarationLine _ 4 .beat .scene "next_step" rfl
  obtain ⟨q, stop, hsecond, say', finish, hgives'⟩ := exists_step s
  obtain ⟨_, _, -, hstep⟩ :=
    SheetReads.block hclose rfl hline' (by decide) (hasWords_ofRow _ _) hsecond (ascends_nil _) .done
  obtain ⟨_, _, -, hscene⟩ :=
    SheetReads.block hclose rfl hline (by decide) (hasWords_ofRow _ _) hfirst (hbehind _) hstep
  have hplace : Source.Place.narrative ≠ .choice := by decide
  exact ⟨_, _, hscene, _, .intro _ _ _ _ _ _ _ _ _, fun targets htargets =>
    .part hplace hname rfl (hgives targets htargets) (.part hplace hname' rfl (hgives' targets) .nil)⟩

/-- Where the setting begins in the lines of the story. -/
def settingOffset (offset : Nat) : Nat := offset + byteLength (Strip.ofRow 2 (.heading (.word "config") [])).line

theorem exists_story (s : Source) (hclose : Closing close) (id : String) {offset : Nat}
    (hholds : s.Holds (settingOffset offset) (Strip.ofRow 4 setting).line) : ∃ p stop,
    SheetReads close .story [2] offset storyStrips p stop [] ∧ ∃ children,
      (∀ body range, IsStory id ⟨id, .story, none, body, [], children, [], range⟩) ∧
      ∀ targets, "next_step" ∈ targets → s.Gives targets .narrative false p.statements { children } := by
  have hconfig : LineIn .story ((Strip.ofRow 2 (.heading (.word "config") [])).place (offset + 2))
      (.opening .config .config true) := Draft.lineIn_keyword rfl rfl .config
  obtain ⟨p, middle, hsetting, hends, action, hgives⟩ :=
    exists_config s (settingOffset offset) (.ofRow 2 (.heading (.word "scene") [.word "opening"]) :: sceneStrips)
  obtain ⟨name, hname, hline⟩ := @exists_declarationLine (middle + 2) 2 .scene .story "opening" rfl
  obtain ⟨q, stop, hbeats, beats, hbeatNodes, hgives'⟩ := exists_scene s hclose _
  obtain ⟨_, _, -, hscene⟩ :=
    SheetReads.block hclose rfl hline (by decide) (hasWords_ofRow _ _) hbeats (ascends_nil _) .done
  obtain ⟨opening, closing, hopening, hstory⟩ := SheetReads.block hclose rfl hconfig (by decide)
    (hasWords_ofRow _ _) hsetting (ascends_ofRow _ (Nat.le_refl 2)) hscene
  have hplace : Source.Place.narrative ≠ .choice := by decide
  have hbody (words : List Lexeme) (hwords : words ≠ []) : s.excerpt ⟨opening.start,
      max (spanOf (words ++ proper p.tokens)).stop opening.start⟩ = "starting_scene = opening" := by
    have hpos : 1 ≤ byteLength (setting.line 0) := by rw [Row.byteLength_line]; exact Nat.le_add_left _ _
    have hstart : opening.start = settingOffset offset + 4 := hopening
    rw [Expr.spanOf_append hwords hends.1, hends.2, hstart, Nat.max_eq_left (by omega)]
    exact excerpt_setting hholds
  exact ⟨_, _, hstory, _, fun _ _ => .intro _ _ _ _ _ _ _ hbeatNodes, fun targets htargets =>
    .config (hbody _ (List.cons_ne_nil _ _)) (hgives targets)
      (.part hplace hname rfl (hgives' targets htargets) .nil)⟩

end Starter
end BranchingStory
