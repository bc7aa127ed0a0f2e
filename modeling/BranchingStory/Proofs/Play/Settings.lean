import BranchingStory.Play.Session
import BranchingStory.Proofs.Play.SettingLines
import BranchingStory.Proofs.Script.Settings

/-! # The opening scene that a story sets

The opening scene is read again from the text of the configuration blocks, although the settings in them were
read before. Both readings agree where no comment over several lines names the opening scene and none stands on
the line of its first setting. A comment on that line can become part of the name, and a line of a comment can
be taken for a setting. -/

namespace BranchingStory
open Token
set_option autoImplicit false

/-! ## First results -/

theorem find?_filterMap_eq {α β : Type} (f : α → Option β) (p : β → Bool) (xs : List α) :
    (xs.filterMap f).find? p = xs.findSome? fun x => (f x).filter p := by
  induction xs with
  | nil => rfl
  | cons x xs ih =>
    rw [List.findSome?_cons, ← ih]
    cases hx : f x with
    | none => rw [List.filterMap_cons_none hx]; rfl
    | some b =>
      rw [List.filterMap_cons_some hx, List.find?_cons]
      cases hb : p b <;> simp [Option.filter, hb]

theorem findSome?_flatMap {α β γ : Type} (f : α → List β) (g : β → Option γ) (xs : List α) :
    (xs.flatMap f).findSome? g = xs.findSome? fun x => (f x).findSome? g := by
  induction xs with
  | nil => rfl
  | cons x xs ih =>
    rw [List.flatMap_cons, List.findSome?_append, List.findSome?_cons, ih]
    cases (f x).findSome? g <;> rfl

/-- If `g` finds nothing where `f` does not, it finds nothing in front of what `f` finds first. -/
theorem findSome?_agree {α β γ : Type} {f : α → Option β} {g : α → Option γ} {xs : List α}
    (h : ∀ x ∈ xs, f x = none → g x = none) :
    (xs.findSome? f = none → xs.findSome? g = none) ∧
      ∀ b, xs.findSome? f = some b → ∃ x ∈ xs, f x = some b ∧ ∀ c, g x = some c → xs.findSome? g = some c := by
  constructor
  · intro hnone
    exact List.findSome?_eq_none_iff.mpr fun x hx => h x hx (List.findSome?_eq_none_iff.mp hnone x hx)
  · intro b hb
    obtain ⟨front, x, back, rfl, hx, hfront⟩ := List.findSome?_eq_some_iff.mp hb
    refine ⟨x, by simp, hx, fun c hc => List.findSome?_eq_some_iff.mpr ⟨front, x, back, rfl, hc, fun y hy => ?_⟩⟩
    exact h y (by simp [hy]) (hfront y hy)

/-- Does the action set the opening scene? -/
def Action.setsOpening (a : Action) : Bool :=
  match a.deed with
  | .assignment name _ => name == "starting_scene"
  | _ => false

namespace Source
open Grammar Opening Piece
variable {s : Source} {tabWidth : Nat} {row : List Piece}

/-! ## Lines -/

/-- What is known as a token on a line with a setting, or with nothing, stands on that line. -/
theorem unbroken_of_words (hrow : row <:+: pieces 0 s.text)
    (hwords : lexemesOf row = [] ∨ IsSetting (lexemesOf row)) :
    ∀ g ∈ row, g.token? ≠ none → '\n' ∉ g.text := by
  intro g hg hsome
  obtain ⟨t, ht⟩ := Option.ne_none_iff_exists'.mp hsome
  have hmem : (⟨t, ⟨g.start, g.stop⟩⟩ : Lexeme) ∈ lexemesOf row :=
    List.mem_filterMap.mpr ⟨g, hg, by rw [lexeme?, ht]; rfl⟩
  obtain hgaps | hsetting := hwords
  · exact absurd hmem (by simp [hgaps])
  · have hwritten := apt_of_within hrow g hg
    rw [Apt, ht] at hwritten
    exact (hwritten.solid (hsetting.known _ hmem)).unbroken

theorem exists_value (hrow : row <:+: pieces 0 s.text) (hsetting : IsSetting (lexemesOf row)) :
    ∃ name value, s.setting? (lexemesOf row) =
        some ⟨.assignment name (String.ofList value), s.range (spanOf (lexemesOf row))⟩ ∧
      (firstName (textOf row) = name.toList ∨ firstName (textOf row) = []) ∧
      (name = "starting_scene" → (∀ g ∈ row, g.token? = none → ∀ c ∈ g.text, Text.isBlank c = true) →
        lineScene? (textOf row) = valueScene? value) := by
  have hknown := hsetting.known
  obtain ⟨name, assign, ts, e, hlex, he⟩ := hsetting
  rw [hlex] at hknown
  have hts : ∀ t ∈ ts, t.node.Known := fun t ht => hknown t (by simp [ht])
  obtain ⟨hfirst, value, hvalue, hlexemes, htight, htrimmed, hopening⟩ :=
    line_spec (apt_of_within hrow) hlex he.ne_nil hts
  obtain ⟨offset, hplaced, hholds⟩ := exists_holds (hvalue.trans hrow)
  have hexcerpt : s.excerpt (spanOf ts) = String.ofList (textOf value) := by
    rw [← hlexemes, htight.spanOf_eq hplaced, hholds.excerpt_eq, htrimmed.trim_eq]
  refine ⟨name.node, textOf value, ?_, hfirst, hopening⟩
  rw [hlex, setting?, hexcerpt]

/-- A row without a setting of the opening scene sets none. -/
theorem rowScene?_of_none (hrow : row <:+: pieces 0 s.text)
    (hwords : lexemesOf row = [] ∨ IsSetting (lexemesOf row))
    (hgaps : ∀ g ∈ row, g.token? = none → '\n' ∈ g.text → ¬ "starting_scene".toList <:+: g.text)
    (hnone : (s.setting? (lexemesOf row)).filter Action.setsOpening = none) : rowScene? row = none := by
  refine rowScene?_eq_none (apt_of_within hrow) (unbroken_of_words hrow hwords) hgaps ?_
  obtain hempty | hsetting := hwords
  · rw [firstName_of_gaps hempty (apt_of_within hrow)]
    decide
  · obtain ⟨name, value, hset, hfirst, -⟩ := exists_value hrow hsetting
    have hother : name ≠ "starting_scene" := by
      rintro rfl
      rw [hset] at hnone
      exact absurd hnone (by simp [Option.filter, Action.setsOpening])
    obtain hfirst | hfirst := hfirst <;> rw [hfirst]
    · exact fun heq => hother (String.toList_inj.mp heq)
    · decide

/-- A row with a setting is one line, if nothing on the line of the setting goes over several. -/
theorem onLine_of_setting (hrow : row <:+: pieces 0 s.text) (hsetting : IsSetting (lexemesOf row))
    (hbreak : ∀ g ∈ row, g.OnLine s (s.range (spanOf (lexemesOf row))).start.line → '\n' ∉ g.text) :
    ∀ g ∈ row, g.OnLine s (s.range (spanOf (lexemesOf row))).start.line := by
  obtain ⟨name, assign, ts, e, hlex, -⟩ := hsetting
  obtain ⟨front, w, behind, rfl, -, -, hstart, -⟩ := exists_of_lexemesOf_cons hlex
  obtain ⟨offset, hplaced, hholds⟩ := exists_holds hrow
  obtain ⟨hfront, hbehind⟩ := List.forall_mem_append.mp hbreak
  obtain ⟨hplaced, hplaced'⟩ := placed_append.mp hplaced
  rw [textOf_append] at hholds
  have hline : (s.index.position (offset + Text.byteLength (textOf front))).line =
      (s.range (spanOf (lexemesOf (front ++ w :: behind)))).start.line := by
    rw [hlex, ← hplaced'.1, hstart]
    rfl
  exact List.forall_mem_append.mpr
    ⟨(onLine_front hplaced hholds.front hline hfront).2, onLine_behind hplaced' hholds.rest hline hbehind⟩

/-- A row with a setting of the opening scene sets the one that its value names, if what is passed over on the
line of it is white space. -/
theorem rowScene?_of_some {a : Action} {value : String} (hrow : row <:+: pieces 0 s.text)
    (hwords : lexemesOf row = [] ∨ IsSetting (lexemesOf row))
    (ha : (s.setting? (lexemesOf row)).filter Action.setsOpening = some a)
    (hdeed : a.deed = .assignment "starting_scene" value)
    (hblank : ∀ g ∈ row, g.token? = none → g.OnLine s a.range.start.line → ∀ c ∈ g.text, Text.isBlank c = true) :
    rowScene? row = valueScene? value.toList := by
  obtain ⟨hset, -⟩ := Option.filter_eq_some_iff.mp ha
  have htokens := unbroken_of_words hrow hwords
  obtain hgaps | hsetting := hwords
  · rw [hgaps] at hset
    exact absurd hset (by simp [setting?])
  · obtain ⟨name, value', hset', -, hline⟩ := exists_value hrow hsetting
    obtain rfl := Option.some.inj (hset'.symm.trans hset)
    obtain ⟨rfl, rfl⟩ := Deed.assignment.inj hdeed
    have hbreak : ∀ g ∈ row, g.OnLine s (s.range (spanOf (lexemesOf row))).start.line → '\n' ∉ g.text := by
      intro g hg hon
      cases htoken : g.token? with
      | some t => exact htokens g hg (by simp [htoken])
      | none =>
        have happed := apt_of_within hrow g hg
        rw [Apt, htoken] at happed
        exact happed.unbroken (hblank g hg htoken hon)
    have hon := onLine_of_setting hrow hsetting hbreak
    rw [rowScene?_of_unbroken fun g hg => hbreak g hg (hon g hg), String.toList_ofList]
    exact hline rfl fun g hg htoken => hblank g hg htoken (hon g hg)

/-! ## Configurations -/

/-- In one configuration block both readings agree on the opening scene. -/
theorem findSome?_lineScene? (hclean : (s.analyse tabWidth).hasErrors = false) {story config : Node}
    (hstory : (s.analyse tabWidth).script.story? = some story) (hconfig : config ∈ story.childrenOf .config)
    (hgaps : ∀ g ∈ s.passedIn config, '\n' ∈ g.text → ¬ "starting_scene".toList <:+: g.text) :
    (config.actions.find? Action.setsOpening = none →
      (config.body.toList.splitOn '\n').findSome? lineScene? = none) ∧
    ∀ a value scene, config.actions.find? Action.setsOpening = some a →
      a.deed = .assignment "starting_scene" value →
      (∀ g ∈ s.passedIn config, g.OnLine s a.range.start.line → ∀ c ∈ g.text, Text.isBlank c = true) →
      valueScene? value.toList = some scene →
      (config.body.toList.splitOn '\n').findSome? lineScene? = some scene := by
  obtain ⟨ps, hps, hbody, hactions, hwords, hpassed, htokens⟩ := exists_rows hclean hstory hconfig
  have hfeeds : ∀ g ∈ ps, g.isLineFeed = true → g.text = ['\n'] := by
    intro g hg hfeed
    obtain hnone | ⟨-, htext⟩ | ⟨hother, -⟩ := htokens g hg
    · simp [isLineFeed, hnone] at hfeed
    · exact htext
    · exact absurd hfeed (by simp [hother])
  have hwithin : ∀ row ∈ rows ps, row <:+: pieces 0 s.text := fun row hrow => (within_of_mem_rows hrow).trans hps
  have hin : ∀ row ∈ rows ps, ∀ g ∈ row, g.token? = none → g ∈ s.passedIn config := fun row hrow g hg htoken =>
    hpassed g ((within_of_mem_rows hrow).subset hg) htoken
  have hsettings : config.actions.find? Action.setsOpening =
      (rows ps).findSome? fun row => (s.setting? (lexemesOf row)).filter Action.setsOpening := by
    rw [hactions, find?_filterMap_eq, List.findSome?_map]
    rfl
  have hlines : (config.body.toList.splitOn '\n').findSome? lineScene? = (rows ps).findSome? rowScene? := by
    rw [hbody, String.toList_ofList, splitOn_textOf hfeeds, findSome?_flatMap]
    rfl
  obtain ⟨hnone, hsome⟩ := findSome?_agree fun row hrow =>
    rowScene?_of_none (hwithin row hrow) (hwords row hrow) fun g hg htoken => hgaps g (hin row hrow g hg htoken)
  rw [hsettings, hlines]
  refine ⟨hnone, fun a value scene ha hdeed hblank hscene => ?_⟩
  obtain ⟨row, hrow, hset, hagree⟩ := hsome a ha
  refine hagree scene ((rowScene?_of_some (hwithin row hrow) (hwords row hrow) hset hdeed ?_).trans hscene)
  exact fun g hg htoken => hblank g (hin row hrow g hg htoken)

end Source

/-- The first setting of the opening scene, in the order of the source. -/
def Node.openingSetting? (story : Node) : Option Action :=
  ((story.childrenOf .config).flatMap (·.actions)).find? Action.setsOpening

namespace Source
open Opening
variable {s : Source} {tabWidth : Nat}

/-- Where no comment over several lines among the settings names the opening scene, the one that is read from the
text is the one that is set. If none is set, it is none. Otherwise, if only white space is passed over on the line
of the first setting of it, it is the name that this setting gives, or what stands between its quotes without
blanks around it. -/
theorem configured?_analyse (hclean : (s.analyse tabWidth).hasErrors = false) {story : Node}
    (hstory : (s.analyse tabWidth).script.story? = some story)
    (hgaps : ∀ config ∈ story.childrenOf .config, ∀ g ∈ s.passedIn config,
      '\n' ∈ g.text → ¬ "starting_scene".toList <:+: g.text) :
    (story.openingSetting? = none → configured? story = none) ∧
    ∀ a value, story.openingSetting? = some a → a.deed = .assignment "starting_scene" value →
      (∀ config ∈ story.childrenOf .config, ∀ g ∈ s.passedIn config, g.OnLine s a.range.start.line →
        ∀ c ∈ g.text, Text.isBlank c = true) →
      (IsName value → configured? story = some value) ∧
      ∀ content, value.toList = '"' :: (content ++ ['"']) → Text.trim content ≠ [] →
        configured? story = some (String.ofList (Text.trim content)) := by
  have hsetting : story.openingSetting? =
      (story.childrenOf .config).findSome? fun config => config.actions.find? Action.setsOpening :=
    List.find?_flatMap ..
  have hagrees := fun config hconfig => findSome?_lineScene? hclean hstory hconfig (hgaps config hconfig)
  obtain ⟨hnone, hsome⟩ := findSome?_agree fun config hconfig => (hagrees config hconfig).1
  rw [hsetting]
  refine ⟨hnone, fun a value ha hdeed hblank => ?_⟩
  obtain ⟨config, hconfig, hset, hagree⟩ := hsome a ha
  have hscene : ∀ scene, valueScene? value.toList = some scene → configured? story = some scene := fun scene h =>
    hagree scene ((hagrees config hconfig).2 a value scene hset hdeed (hblank config hconfig) h)
  refine ⟨fun hname => hscene value (valueScene?_of_isName hname), fun content hquoted hcontent => ?_⟩
  refine hscene _ ?_
  rw [hquoted]
  exact valueScene?_of_quoted hcontent

/-- A comment over several lines, and one that names the setting on the line of another. -/
def pantry : Source := .ofString
  "story s:\n config:\n  mood = calm /* soft,\n  at last */\n  x = y // starting_scene = c\n  starting_scene = \" b \"\n scene b:\n  beat y:\n   end\n"

theorem configured?_analyse_pantry :
    (pantry.analyse 8).hasErrors = false ∧ ∃ story a, (pantry.analyse 8).script.story? = some story ∧
      story.openingSetting? = some a ∧ a.deed = .assignment "starting_scene" "\" b \"" ∧
      configured? story = some "b" := by
  have hclean : (pantry.analyse 8).hasErrors = false := by decide +kernel
  have hfacts : (pantry.analyse 8).script.story?.isSome = true ∧ ∀ story ∈ (pantry.analyse 8).script.story?,
      (∀ config ∈ story.childrenOf .config, ∀ g ∈ pantry.passedIn config,
        '\n' ∈ g.text → ¬ "starting_scene".toList <:+: g.text) ∧
      story.openingSetting?.isSome = true ∧ ∀ a ∈ story.openingSetting?,
        a.deed = .assignment "starting_scene" "\" b \"" ∧
        ∀ config ∈ story.childrenOf .config, ∀ g ∈ pantry.passedIn config, g.OnLine pantry a.range.start.line →
          g.text.all Text.isBlank = true := by
    decide +kernel
  obtain ⟨hstory, hfacts⟩ := hfacts
  obtain ⟨story, hstory⟩ := Option.isSome_iff_exists.mp hstory
  obtain ⟨hgaps, hset, hfacts⟩ := hfacts story hstory
  obtain ⟨a, ha⟩ := Option.isSome_iff_exists.mp hset
  obtain ⟨hdeed, hblank⟩ := hfacts a ha
  have hscene := ((configured?_analyse hclean hstory hgaps).2 a _ ha hdeed fun config hconfig g hg hon =>
    List.all_eq_true.mp (hblank config hconfig g hg hon)).2 " b ".toList rfl (by decide)
  exact ⟨hclean, story, a, hstory, ha, hdeed, hscene⟩

/-- A comment on the line of the setting. -/
def larder : Source := .ofString
  "story s:\n config:\n  starting_scene = b // c\n  x = y\n scene b:\n  beat y:\n   end\n"

/-- A setting in a comment, in front of the one of the story. -/
def cupboard : Source := .ofString
  "story s:\n config:\n  x = y /*\n  starting_scene = a\n  */\n  starting_scene = b\n scene b:\n  beat y:\n   end\n"

/-- The comment becomes part of the name, so that the story cannot be played; or its setting wins over the one of
the story. -/
theorem configured?_larder :
    ((larder.analyse 8).hasErrors = false ∧
      ((larder.analyse 8).script.story?.bind (·.openingSetting?)).map (·.deed) =
        some (.assignment "starting_scene" "b") ∧
      (larder.analyse 8).script.story?.bind configured? = some "b // c" ∧
      (larder.analyse 8).script.story?.all (fun story => (story.openingScene none).isOk) = false) ∧
    (cupboard.analyse 8).hasErrors = false ∧
      ((cupboard.analyse 8).script.story?.bind (·.openingSetting?)).map (·.deed) =
        some (.assignment "starting_scene" "b") ∧
      (cupboard.analyse 8).script.story?.bind configured? = some "a" := by
  decide +kernel

end Source

end BranchingStory
