import BranchingStory.Play.Opening
import BranchingStory.Proofs.Token.Rows

/-! # Lines that set the opening scene

The opening scene is read from the text of a configuration block, one line after the other. A line sets none
if the name that it begins with is another one. A line whose tokens are the name, an equals sign and a value
is read by its value, if only white space stands between them. -/

namespace BranchingStory
open Text Token
set_option autoImplicit false

theorem Text.exists_trim (text : List Char) :
    ∃ front back, text = front ++ (trim text ++ back) ∧ ∀ c ∈ front, isBlank c = true := by
  obtain ⟨back, hback⟩ := List.dropWhile_suffix isBlank (l := (text.dropWhile isBlank).reverse)
  refine ⟨text.takeWhile isBlank, back.reverse, ?_, List.all_eq_true.mp List.all_takeWhile⟩
  rw [trim, trimEnd, ← List.reverse_append, hback, List.reverse_reverse, List.takeWhile_append_dropWhile]

namespace Opening

/-- The scene that a value names. -/
def valueScene? (value : List Char) : Option String :=
  scene? (String.ofList (((unquoted? '"' value).or (unquoted? '\'' value)).getD value))

theorem isName_setting : IsName "starting_scene" := ⟨by decide, List.all_eq_true.mp (by decide)⟩

/-! ## First names -/

theorem isNamePart_eq_false {c : Char} (h : isBlank c = true) : isNamePart c = false :=
  Bool.eq_false_iff.mpr fun hname => absurd h (by simp [IsName.isBlank_eq_false hname])

/-- The name that a text begins with behind its blanks. -/
def firstName (text : List Char) : List Char := (text.dropWhile isBlank).takeWhile isNamePart

theorem firstName_append_blanks {front : List Char} (h : ∀ c ∈ front, isBlank c = true) (text : List Char) :
    firstName (front ++ text) = firstName text := by
  rw [firstName, List.dropWhile_append_of_pos h, firstName]

theorem firstName_append_name {name : String} {rest : List Char} (h : IsName name)
    (hrest : ∀ c ∈ rest.head?, isNamePart c = false) : firstName (name.toList ++ rest) = name.toList := by
  have hsolid : ∀ c ∈ (name.toList ++ rest).head?, isBlank c = false := by
    rw [List.head?_append_of_ne_nil _ h.1]
    exact h.solid.first
  rw [firstName, dropWhile_isBlank_eq_self hsolid]
  exact takeWhile_append h.2 hrest

/-- The first name does not go on behind a character that is neither white space nor part of a name. -/
theorem firstName_append_foreign {text : List Char} {c : Char} (hc : c ∈ text) (hsolid : isBlank c = false)
    (hforeign : isNamePart c = false) (more : List Char) : firstName (text ++ more) = firstName text := by
  have hmem : c ∈ text.dropWhile isBlank := by
    rw [← List.takeWhile_append_dropWhile (p := isBlank) (l := text)] at hc
    refine (List.mem_append.mp hc).resolve_left fun hblank => ?_
    exact absurd (List.all_eq_true.mp List.all_takeWhile c hblank) (by simp [hsolid])
  rw [firstName, List.dropWhile_append, if_neg (by simpa using List.ne_nil_of_mem hmem), List.takeWhile_append,
    if_neg, firstName]
  intro hlength
  have hall := (List.takeWhile_prefix isNamePart).eq_of_length hlength
  rw [← hall] at hmem
  exact absurd (List.all_eq_true.mp List.all_takeWhile c hmem) (by simp [hforeign])

theorem firstName_within (text : List Char) : firstName text <:+: text :=
  (List.takeWhile_prefix _).isInfix.trans (List.dropWhile_suffix _).isInfix

/-- A line that sets a scene begins with the name of the setting, whatever follows behind it. -/
theorem firstName_of_lineScene? {line : List Char} {scene : String} (h : lineScene? line = some scene)
    (more : List Char) : firstName (line ++ more) = "starting_scene".toList := by
  simp only [lineScene?, Option.bind_eq_bind, Option.bind_eq_some_iff] at h
  obtain ⟨setting, hsetting, value, hvalue, -⟩ := h
  obtain ⟨front, back, hline, hfront⟩ := exists_trim line
  obtain ⟨gap, back', hgap, hblank⟩ := exists_trim setting
  rw [← List.isPrefixOf?_eq_some_iff_append_eq.mp hsetting] at hline
  rw [← List.isPrefixOf?_eq_some_iff_append_eq.mp hvalue] at hgap
  have hrest : ∀ c ∈ (setting ++ (back ++ more)).head?, isNamePart c = false := by
    rw [hgap]
    cases gap with
    | nil => simp [isNamePart]
    | cons c gap =>
      rintro _ ⟨⟩
      exact isNamePart_eq_false (hblank c List.mem_cons_self)
  rw [hline, List.append_assoc, firstName_append_blanks hfront, List.append_assoc, List.append_assoc]
  exact firstName_append_name isName_setting hrest

/-! ## Lines as texts -/

/-- A line for the opening scene sets the one that its value names. -/
theorem lineScene?_of_setting {front gap gap' value back : List Char} (hfront : ∀ c ∈ front, isBlank c = true)
    (hgap : ∀ c ∈ gap, isBlank c = true) (hgap' : ∀ c ∈ gap', isBlank c = true) (hvalue : Trimmed value)
    (hback : ∀ c ∈ back, isBlank c = true) :
    lineScene? (front ++ ("starting_scene".toList ++ (gap ++ '=' :: (gap' ++ (value ++ back))))) =
      valueScene? value := by
  have hequals : Trimmed ['='] := (solid_spelling .assign).toTrimmed
  have hassign : Trimmed ('=' :: (gap' ++ value)) := hequals.append hvalue gap'
  have hline : trim (front ++ ("starting_scene".toList ++ (gap ++ '=' :: (gap' ++ (value ++ back))))) =
      "starting_scene".toList ++ (gap ++ '=' :: (gap' ++ value)) := by
    have hbehind : "starting_scene".toList ++ (gap ++ '=' :: (gap' ++ (value ++ back))) =
        ("starting_scene".toList ++ (gap ++ '=' :: (gap' ++ value))) ++ back := by simp
    rw [trim_blanks hfront, hbehind, trim_append_blanks hback]
    exact (isName_setting.solid.append hassign gap).trim_eq
  have hsetting := List.isPrefixOf?_eq_some_iff_append_eq.mpr hline.symm
  have hfound : ['='].isPrefixOf? (trim (gap ++ '=' :: (gap' ++ value))) = some (gap' ++ value) := by
    rw [trim_blanks hgap, hassign.trim_eq]
    rfl
  have hinner : trim (gap' ++ value) = value := by rw [trim_blanks hgap', hvalue.trim_eq]
  simp only [lineScene?, hsetting, hfound, hinner, Option.bind_eq_bind, Option.bind_some]
  rfl

/-! ## Values -/

/-- A name names itself. -/
theorem valueScene?_of_isName {value : String} (h : IsName value) : valueScene? value.toList = some value := by
  have hunquoted : ∀ quote, isNamePart quote = false → unquoted? quote value.toList = none := by
    intro quote hquote
    obtain ⟨c, rest, hcons⟩ := List.exists_cons_of_ne_nil h.1
    have hc : c ≠ quote := by
      rintro rfl
      exact absurd (h.2 c (by rw [hcons]; exact List.mem_cons_self)) (by simp [hquote])
    rw [unquoted?, hcons, List.isPrefixOf?, if_neg (by simpa using Ne.symm hc)]
    rfl
  rw [valueScene?, hunquoted '"' (by decide), hunquoted '\'' (by decide)]
  rw [Option.none_or, Option.getD_none, String.ofList_toList, scene?, h.trimString_eq]
  exact if_neg h.ne_empty

/-- A value in quotes names what stands between them. -/
theorem valueScene?_of_quoted {content : List Char} (h : trim content ≠ []) :
    valueScene? ('"' :: (content ++ ['"'])) = some (String.ofList (trim content)) := by
  have hunquoted : unquoted? '"' ('"' :: (content ++ ['"'])) = some content :=
    List.isSuffixOf?_eq_some_iff_append_eq.mpr rfl
  rw [valueScene?, hunquoted, Option.some_or, Option.getD_some, scene?, trimString, String.toList_ofList]
  exact if_neg fun hempty => h (by simpa using congrArg String.toList hempty)

/-! ## Lines as pieces -/

section Pieces
open Piece
variable {gaps row : List Piece}

/-- The scene that the lines of a row set. -/
def rowScene? (row : List Piece) : Option String := ((textOf row).splitOn '\n').findSome? lineScene?

theorem rowScene?_of_unbroken (h : ∀ p ∈ row, '\n' ∉ p.text) : rowScene? row = lineScene? (textOf row) := by
  have hunbroken : '\n' ∉ textOf row := fun hmem => by
    obtain ⟨p, hp, hline⟩ := List.mem_flatMap.mp hmem
    exact h p hp hline
  rw [rowScene?, List.splitOn_eq_singleton hunbroken, List.findSome?_cons, List.findSome?_nil]
  cases lineScene? (textOf row) <;> rfl

theorem isNamePart_eq_false_of_isSkippable {c : Char} (h : isSkippable c = true) : isNamePart c = false := by
  simp only [isSkippable, Bool.or_eq_true, beq_iff_eq] at h
  rcases h with ((((rfl | rfl) | rfl) | rfl) | rfl) | rfl <;> decide

/-- What is passed over does not go on with a name. -/
theorem head?_gaps (hgaps : lexemesOf gaps = []) (hapt : ∀ p ∈ gaps, p.Apt) {text : List Char}
    (h : ∀ c ∈ text.head?, isNamePart c = false) : ∀ c ∈ (textOf gaps ++ text).head?, isNamePart c = false := by
  have hnone := lexemesOf_eq_nil_iff.mp hgaps
  clear hgaps
  induction gaps with
  | nil => exact h
  | cons p ps ih =>
    obtain ⟨hp, hps⟩ := List.forall_mem_cons.mp hnone
    obtain ⟨happed, hapts⟩ := List.forall_mem_cons.mp hapt
    have hmore := ih hapts hps
    rw [Apt, hp] at happed
    rw [textOf_cons, List.append_assoc]
    cases htext : p.text with
    | nil => exact hmore
    | cons c rest =>
      rw [htext] at happed
      rintro _ ⟨⟩
      rcases happed with hskip | ⟨hslash, -⟩
      · exact isNamePart_eq_false_of_isSkippable (hskip c List.mem_cons_self)
      · obtain rfl : c = '/' := Option.some.inj hslash
        decide

/-- Behind what is passed over the first name is the same, unless that holds a character that is no blank. -/
theorem firstName_gaps (hgaps : lexemesOf gaps = []) (hapt : ∀ p ∈ gaps, p.Apt) (text : List Char) :
    firstName (textOf gaps ++ text) = firstName text ∨ firstName (textOf gaps ++ text) = [] := by
  have hnone := lexemesOf_eq_nil_iff.mp hgaps
  clear hgaps
  induction gaps with
  | nil => exact .inl rfl
  | cons p ps ih =>
    obtain ⟨hp, hps⟩ := List.forall_mem_cons.mp hnone
    obtain ⟨happed, hapts⟩ := List.forall_mem_cons.mp hapt
    rw [Apt, hp] at happed
    rw [textOf_cons, List.append_assoc]
    rcases happed with hskip | ⟨hslash, -⟩
    · by_cases hblank : ∀ c ∈ p.text, isBlank c = true
      · rw [firstName_append_blanks hblank]
        exact ih hapts hps
      · obtain ⟨c, hc, hsolid⟩ : ∃ c ∈ p.text, isBlank c = false := by simpa using hblank
        refine .inr ?_
        rw [firstName_append_foreign hc hsolid (isNamePart_eq_false_of_isSkippable (hskip c hc))]
        refine List.eq_nil_iff_forall_not_mem.mpr fun d hd => ?_
        have hskipped := isNamePart_eq_false_of_isSkippable (hskip d ((firstName_within p.text).subset hd))
        exact absurd (List.all_eq_true.mp List.all_takeWhile d hd) (by simp [hskipped])
    · obtain ⟨rest, hrest⟩ := List.head?_eq_some_iff.mp hslash
      refine .inr ?_
      rw [hrest]
      rfl

theorem firstName_of_gaps (hgaps : lexemesOf gaps = []) (hapt : ∀ p ∈ gaps, p.Apt) :
    firstName (textOf gaps) = [] := by
  have h := firstName_gaps hgaps hapt []
  rw [List.append_nil] at h
  exact h.elim id id

/-- Where the first name of a row is another one, and no comment over several lines names the setting, none of the
lines of the row sets a scene. -/
theorem rowScene?_eq_none (hapt : ∀ p ∈ row, p.Apt) (htokens : ∀ p ∈ row, p.token? ≠ none → '\n' ∉ p.text)
    (hgaps : ∀ p ∈ row, p.token? = none → '\n' ∈ p.text → ¬ "starting_scene".toList <:+: p.text)
    (hother : firstName (textOf row) ≠ "starting_scene".toList) : rowScene? row = none := by
  refine List.findSome?_eq_none_iff.mpr fun line hline => ?_
  cases hscene : lineScene? line with
  | none => rfl
  | some scene =>
    have hname := firstName_of_lineScene? hscene
    obtain ⟨more, hmore⟩ | ⟨p, hp, before, inner, rest, more, htext, hmore⟩ := line_cases hline
    · exact absurd (hname more) (hmore ▸ hother)
    · have hbreak : '\n' ∈ p.text := by simp [htext]
      cases htoken : p.token? with
      | some t => exact absurd hbreak (htokens p hp (by simp [htoken]))
      | none =>
        have happed := hapt p hp
        rw [Apt, htoken] at happed
        obtain ⟨-, hclosed⟩ := happed.resolve_left fun hskip => absurd (hskip _ hbreak) (by decide)
        -- The sign that closes the comment stands behind the line feed, and the name in front of it.
        have hslash : '/' ∈ inner := by
          have hlast := hclosed hbreak
          rw [htext, List.getLast?_append_cons, List.getLast?_cons] at hlast
          cases hinner : inner.getLast? with
          | none => simp [hinner] at hlast
          | some c =>
            obtain rfl : c = '/' := by simpa [hinner] using hlast
            exact List.mem_of_getLast? hinner
        have hfirst := hname more
        rw [hmore, firstName_append_foreign hslash (by decide) (by decide)] at hfirst
        refine absurd ?_ (hgaps p hp htoken hbreak)
        rw [← hfirst, htext]
        exact (firstName_within inner).trans ((List.suffix_cons _ _).isInfix.trans (List.suffix_append _ _).isInfix)

/-- The pieces of a line with a name, an equals sign and a value. -/
theorem exists_line {name : String} {word assign : Span} {ts : List Lexeme} (hapt : ∀ p ∈ row, p.Apt)
    (h : lexemesOf row = ⟨.word name, word⟩ :: ⟨.symbol .assign, assign⟩ :: ts) (hne : ts ≠ []) :
    ∃ front gap gap' value back, lexemesOf front = [] ∧ lexemesOf gap = [] ∧ lexemesOf gap' = [] ∧
      lexemesOf back = [] ∧ value <:+: row ∧ lexemesOf value = ts ∧ Tight value ∧ IsName name ∧
      (∀ p ∈ front ++ (gap ++ (gap' ++ back)), p ∈ row) ∧
      textOf row = textOf front ++ (name.toList ++ (textOf gap ++ '=' ::
        (textOf gap' ++ (textOf value ++ textOf back)))) := by
  obtain ⟨front, w, rest, rfl, hfront, hw, -, hrest⟩ := exists_of_lexemesOf_cons h
  obtain ⟨gap, a, operand, rfl, hgap, ha, -, hoperand⟩ := exists_of_lexemesOf_cons hrest
  have hoperand : lexemesOf operand = [] ++ (ts ++ []) := hoperand.trans (List.append_nil ts).symm
  obtain ⟨gap', value, back, rfl, hgap', hvalue, hback, htight⟩ := Piece.exists_tight hoperand hne
  have hword := hapt w (by simp)
  have hassign := hapt a (by simp)
  rw [Apt, hw] at hword
  rw [Apt, ha] at hassign
  obtain ⟨hname, hisName⟩ := hword
  have hequals : a.text = ['='] := hassign
  refine ⟨front, gap, gap', value, back, hfront, hgap, hgap', hback, ?_, hvalue, htight, hisName, ?_, ?_⟩
  · exact ⟨front ++ w :: (gap ++ a :: gap'), back, by simp⟩
  · simp only [List.mem_append, List.mem_cons]
    tauto
  · simp only [textOf_append, textOf_cons, hname, hequals]
    rfl

/-- The first name of a line is the one of its setting, unless something else than white space stands in front of
it. If only white space is passed over in it, a line for the opening scene sets the one that its value names. -/
theorem line_spec {name : String} {word assign : Span} {ts : List Lexeme} (hapt : ∀ p ∈ row, p.Apt)
    (h : lexemesOf row = ⟨.word name, word⟩ :: ⟨.symbol .assign, assign⟩ :: ts) (hne : ts ≠ [])
    (hknown : ∀ t ∈ ts, t.node.Known) :
    (firstName (textOf row) = name.toList ∨ firstName (textOf row) = []) ∧
      ∃ value, value <:+: row ∧ lexemesOf value = ts ∧ Tight value ∧ Trimmed (textOf value) ∧
        (name = "starting_scene" → (∀ p ∈ row, p.token? = none → ∀ c ∈ p.text, isBlank c = true) →
          lineScene? (textOf row) = valueScene? (textOf value)) := by
  obtain ⟨front, gap, gap', value, back, hfront, hgap, hgap', hback, hwithin, hvalue, htight, hname, hmem, htext⟩ :=
    exists_line hapt h hne
  have htrimmed : Trimmed (textOf value) := by
    refine htight.trimmed (fun p hp => hapt p (hwithin.subset hp)) ?_ ?_
    · rw [hvalue]
      exact fun t ht => hknown t (List.mem_of_head? ht)
    · rw [hvalue]
      exact fun t ht => hknown t (List.mem_of_getLast? ht)
  refine ⟨?_, value, hwithin, hvalue, htight, htrimmed, ?_⟩
  · have hequals : ∀ c ∈ ('=' :: (textOf gap' ++ (textOf value ++ textOf back))).head?, isNamePart c = false := by
      simp [isNamePart]
    have hrest := head?_gaps hgap (fun p hp => hapt p (hmem p (by simp [hp]))) hequals
    have hfirst := firstName_gaps hfront (fun p hp => hapt p (hmem p (by simp [hp])))
      (name.toList ++ (textOf gap ++ '=' :: (textOf gap' ++ (textOf value ++ textOf back))))
    rw [htext]
    rwa [firstName_append_name hname hrest] at hfirst
  · rintro rfl hrow
    have hblank : ∀ gaps, lexemesOf gaps = [] → (∀ p ∈ gaps, p ∈ row) → ∀ c ∈ textOf gaps, isBlank c = true := by
      intro gaps hgaps hmem c hc
      obtain ⟨p, hp, hc⟩ := List.mem_flatMap.mp hc
      exact hrow p (hmem p hp) (lexemesOf_eq_nil_iff.mp hgaps p hp) c hc
    rw [htext]
    refine lineScene?_of_setting (hblank _ hfront ?_) (hblank _ hgap ?_) (hblank _ hgap' ?_) htrimmed
      (hblank _ hback ?_) <;> exact fun p hp => hmem p (by simp [hp])

end Pieces

end Opening

end BranchingStory
