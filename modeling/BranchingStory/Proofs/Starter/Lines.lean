import BranchingStory.Proofs.Draft.Lines
import BranchingStory.Proofs.Token.Comments
import BranchingStory.Proofs.Token.Sheets
import BranchingStory.Starter

/-! # The lines of the starter

The name of a new story is quoted in the metadata with its backslashes and quotes escaped. Such a text is scanned as
the name itself if it goes over one line; a name with a line feed or a carriage return leaves a quote without its
partner. -/

namespace BranchingStory.Starter
open Text Token
set_option autoImplicit false

/-! ## Quoting -/

def quote (text : List Char) : List Char :=
  text.flatMap fun c => if c = '\\' ∨ c = '"' then ['\\', c] else [c]

theorem toList_quoted (id : String) : (quoted id).toList = quote id.toList := String.toList_ofList

theorem quote_cons (c : Char) (text : List Char) :
    quote (c :: text) = (if c = '\\' ∨ c = '"' then ['\\', c] else [c]) ++ quote text := rfl

theorem resolve_quote (text : List Char) : resolve (quote text) = text := by
  induction text with
  | nil => rfl
  | cons c text ih =>
    rw [quote_cons]
    split
    · next hc =>
      rw [List.cons_append, List.singleton_append, resolve, if_pos rfl, ih]
      rcases hc with rfl | rfl <;> rfl
    · next hc => rw [List.singleton_append, resolve_cons_plain (fun h => hc (.inl h)), ih]

/-- Does the text end no line? -/
def Unbroken (text : List Char) : Prop := '\n' ∉ text ∧ '\r' ∉ text

instance (text : List Char) : Decidable (Unbroken text) := inferInstanceAs (Decidable (_ ∧ _))

section Scanning
variable {text rest : List Char}

theorem literalLength_quote (h : Unbroken text) (hrest : rest ≠ []) :
    literalLength (quote text ++ rest) = (quote text).length + literalLength rest := by
  induction text with
  | nil => exact (Nat.zero_add _).symm
  | cons c text ih =>
    obtain ⟨hfeed, hreturn⟩ := h
    obtain ⟨hc, htext⟩ := not_or.mp (mt List.mem_cons.mpr hfeed)
    obtain ⟨hc', htext'⟩ := not_or.mp (mt List.mem_cons.mpr hreturn)
    have hbehind : ∃ d more, quote text ++ rest = d :: more :=
      List.exists_cons_of_ne_nil fun hnil => hrest (List.append_eq_nil_iff.mp hnil).2
    have hmore := ih ⟨htext, htext'⟩
    rw [quote_cons]
    split
    · rw [List.append_assoc, List.cons_append, List.singleton_append, literalLength, if_neg (by decide), if_pos rfl,
        if_neg (by simp [Ne.symm hc, Ne.symm hc']), hmore]
      simp only [List.length_append, List.length_cons, List.length_nil]
      omega
    · next hplain =>
      obtain ⟨hback, hquote⟩ := not_or.mp hplain
      obtain ⟨d, more, hd⟩ := hbehind
      rw [List.append_assoc, List.singleton_append, hd, literalLength,
        if_neg (by simp [hquote, Ne.symm hc, Ne.symm hc']), if_neg hback, ← hd, hmore]
      simp only [List.length_append, List.length_cons, List.length_nil]
      omega

theorem scanString_quote (h : Unbroken text) (rest : List Char) :
    scanString (quote text ++ '"' :: rest) =
      ⟨some (.string (String.ofList text)), (quote text ++ ['"']).length⟩ := by
  have hquote : literalLength ('"' :: rest) = 0 := by cases rest <;> simp [literalLength]
  rw [scanString, literalLength_quote h (by simp), hquote, Nat.add_zero, List.drop_left, List.take_left,
    resolve_quote, List.length_append]
  rfl

/-- At the end of a line a text that is still open is no string. -/
theorem scanString_broken {c : Char} (h : Unbroken text) (hc : c = '\n' ∨ c = '\r') (rest : List Char) :
    scanString (quote text ++ c :: rest) =
      ⟨some (.unknown (String.ofList ('"' :: quote text))), (quote text).length⟩ := by
  have hend : literalLength (c :: rest) = 0 := by
    rcases hc with rfl | rfl <;> cases rest <;> simp [literalLength]
  rw [scanString, literalLength_quote h (by simp), hend, Nat.add_zero, List.drop_left, List.take_left]
  rcases hc with rfl | rfl <;> rfl

/-- The first line end of a text that has one. -/
theorem exists_broken {text : List Char} (h : ¬ Unbroken text) :
    ∃ front c behind, text = front ++ c :: behind ∧ Unbroken front ∧ (c = '\n' ∨ c = '\r') := by
  induction text with
  | nil => exact absurd ⟨List.not_mem_nil, List.not_mem_nil⟩ h
  | cons c text ih =>
    by_cases hc : c = '\n' ∨ c = '\r'
    · exact ⟨[], c, text, rfl, ⟨List.not_mem_nil, List.not_mem_nil⟩, hc⟩
    · obtain ⟨hfeed, hreturn⟩ := not_or.mp hc
      have htext : ¬ Unbroken text := fun ⟨hnofeed, hnoreturn⟩ =>
        h ⟨List.not_mem_cons_of_ne_of_not_mem (Ne.symm hfeed) hnofeed,
          List.not_mem_cons_of_ne_of_not_mem (Ne.symm hreturn) hnoreturn⟩
      obtain ⟨front, d, behind, rfl, ⟨hnofeed, hnoreturn⟩, hd⟩ := ih htext
      exact ⟨c :: front, d, behind, rfl, ⟨List.not_mem_cons_of_ne_of_not_mem (Ne.symm hfeed) hnofeed,
        List.not_mem_cons_of_ne_of_not_mem (Ne.symm hreturn) hnoreturn⟩, hd⟩

theorem quote_append (front behind : List Char) : quote (front ++ behind) = quote front ++ quote behind :=
  List.flatMap_append

/-- The entry of the metadata up to the text of the name. -/
theorem lexemes_entry (offset : Nat) (rest : List Char) :
    lexemes offset ("id: \"".toList ++ rest) = ⟨.word "id", ⟨offset, offset + 2⟩⟩ ::
      ⟨.symbol .colon, ⟨offset + 2, offset + 3⟩⟩ :: lexemes (offset + 4) ('"' :: rest) := by
  have hends : EndsBefore (.word "id") (':' :: ' ' :: '"' :: rest) := by
    rintro c ⟨⟩
    exact .inr (.inr ⟨rfl, by simp⟩)
  have hends' : EndsBefore (.symbol .colon) (' ' :: '"' :: rest) := by
    rintro c ⟨⟩
    exact .inl rfl
  have hwritable : Writable (.word "id") := writable_word (by decide)
  have hword := lexemes_spell hwritable hends offset
  have hcolon := @lexemes_spell (.symbol .colon) trivial _ hends' (offset + 2)
  have hblank := @lexemes_blank ' ' rfl (offset + 3) ('"' :: rest)
  exact hword.trans (congrArg _ (hcolon.trans (congrArg _ hblank)))

end Scanning

/-! ## The sheet -/

/-- The line of the metadata that holds the name. -/
def nameStrip (id : String) : Strip where
  width := 0
  text := "id: \"".toList ++ (quote id.toList ++ ['"'])
  place offset := [⟨.word "id", ⟨offset, offset + 2⟩⟩, ⟨.symbol .colon, ⟨offset + 2, offset + 3⟩⟩,
    ⟨.string id, ⟨offset + 4, offset + 4 + byteLength ('"' :: (quote id.toList ++ ['"']))⟩⟩]

theorem sound_nameStrip {id : String} (h : Unbroken id.toList) : (nameStrip id).Sound where
  solid := by
    rintro c ⟨⟩
    rfl
  lexemes_eq offset behind := by
    have hscan : scan '"' ((quote id.toList ++ ['"']) ++ '\n' :: behind) =
        ⟨some (.string id), (quote id.toList ++ ['"']).length⟩ := by
      have hstring := scanString_quote h ('\n' :: behind)
      rw [String.ofList_toList] at hstring
      rw [List.append_assoc]
      exact hstring
    have hstring := lexemes_cons hscan (offset + 4)
    have hlength : offset + byteLength (nameStrip id).text =
        offset + 4 + byteLength ('"' :: (quote id.toList ++ ['"'])) := by
      have hentry : byteLength "id: \"".toList = 5 := rfl
      have hquote : '"'.utf8Size = 1 := rfl
      rw [nameStrip, byteLength_append, byteLength_cons, hentry, hquote]
      omega
    rw [hlength, nameStrip, List.append_assoc, lexemes_entry, ← List.cons_append, hstring]
    rfl
  proper offset := by simp [nameStrip, isLayout]
  start_eq offset := by
    rintro t ⟨⟩
    rfl

def fenceStrips (id : String) : List Strip :=
  [.ofRow 0 ⟨.symbol .fenceOpen, []⟩, nameStrip id,
    .ofRow 0 ⟨.word "locale", [(0, .symbol .colon), (1, .string "en-US")]⟩,
    .ofRow 0 ⟨.word "version", [(0, .symbol .colon), (1, .number (numberValue ['1'] []) "1")]⟩,
    .ofRow 0 ⟨.symbol .fenceClose, []⟩, .blank]

def setting : Row := .sentence (.word "starting_scene") [.symbol .assign, .word "opening"]

/-- The option of the first beat. -/
def continuation : Row := .sentence (.word "option") [.string "Continue", .word "goto", .word "next_step"]

/-- The lines of the first beat. -/
def arrivalStrips : List Strip :=
  [.ofRow 6 (.sentence (.word "say") [.word "narrator", .string "Welcome to your new Skroll project."]),
    .ofRow 6 (.sentence (.word "stage")
      [.string "Add beats, scenes, and choices to craft your branching narrative."]),
    .ofRow 6 (.heading (.word "choice") []),
    .ofRow 8 continuation, .blank]

/-- The lines of the beat that the choice leads to. -/
def stepStrips : List Strip :=
  [.ofRow 6 (.sentence (.word "say") [.word "narrator", .string "Edit this script to begin your story."]),
    .ofRow 6 (.sentence (.word "end") [])]

def sceneStrips : List Strip :=
  .ofRow 4 (.heading (.word "beat") [.word "arrival"]) :: (arrivalStrips ++
    .ofRow 4 (.heading (.word "beat") [.word "next_step"]) :: stepStrips)

/-- The lines of the story: the setting, and the scene that it names. -/
def storyStrips : List Strip :=
  .ofRow 2 (.heading (.word "config") []) :: .ofRow 4 setting :: .blank ::
    .ofRow 2 (.heading (.word "scene") [.word "opening"]) :: sceneStrips

def sheet (id : String) : List Strip :=
  fenceStrips id ++ .ofRow 0 (.heading (.word "story") [.word (identifier id)]) :: storyStrips

/-- The lines of the story are the same for every name. -/
theorem map_toList_storyLines (id : String) :
    ((lines id).drop 7).map String.toList = storyStrips.map fun x => List.replicate x.width ' ' ++ x.text := by
  have hdrop : (lines id).drop 7 = (lines "").drop 7 := by
    simp only [lines, List.drop_succ_cons, List.drop_zero]
  rw [hdrop]
  decide +kernel

theorem map_toList_lines (id : String) :
    (lines id).map String.toList = (sheet id).map fun x => List.replicate x.width ' ' ++ x.text := by
  have hname : ("id: \"" ++ quoted id ++ "\"").toList = "id: \"".toList ++ (quote id.toList ++ ['"']) := by
    rw [String.toList_append, String.toList_append, toList_quoted, List.append_assoc]
    rfl
  have hstory : ("story " ++ identifier id ++ ":").toList =
      (Row.heading (.word "story") [.word (identifier id)]).text 0 := by
    rw [String.toList_append, String.toList_append, Row.text, Row.heading, Row.cells]
    simp [spaced, Cell.text, spell, display, Symbol.spelling]
  have hfence : (lines id).take 7 = [":::meta", "id: \"" ++ quoted id ++ "\"", "locale: \"en-US\"", "version: 1",
      ":::", "", "story " ++ identifier id ++ ":"] := rfl
  rw [← List.take_append_drop 7 (lines id), List.map_append, map_toList_storyLines, hfence]
  simp only [List.map_cons, hname, hstory]
  rfl

theorem toList_text (id : String) : (text id).toList = (sheet id).flatMap Strip.line := by
  have hline : ∀ l : String, (l ++ "\n").toList = l.toList ++ ['\n'] := fun l => String.toList_append
  have hlines := congrArg (List.flatMap (· ++ ['\n'])) (map_toList_lines id)
  rw [List.flatMap_map, List.flatMap_map] at hlines
  rw [text, String.toList_join, List.flatMap_map]
  simp only [hline, hlines, List.append_assoc]
  rfl

theorem isIdentifier_identifier {id : String} (h : id ≠ "") : IsIdentifier (identifier id) := by
  have hpart : ∀ c ∈ id.toList.map fun c => if c.isAlphanum then c else '_', isNamePart c = true := by
    intro c hc
    obtain ⟨d, -, rfl⟩ := List.mem_map.mp hc
    split
    · next hd => simp [isNamePart, hd]
    · decide
  have hne : id.toList ≠ [] := fun hnil => h (String.toList_inj.mp (hnil.trans rfl))
  obtain ⟨c, rest, hname⟩ := List.exists_cons_of_ne_nil (mt List.map_eq_nil_iff.mp hne)
  rw [hname] at hpart
  obtain ⟨hc, hrest⟩ := List.forall_mem_cons.mp hpart
  rw [IsIdentifier, identifier, hname, String.toList_ofList]
  split
  · exact ⟨'_', c :: rest, rfl, by decide, hpart⟩
  · next hdigit =>
    refine ⟨c, rest, rfl, ?_, hrest⟩
    simp [isNamePart, isNameStart, Char.isAlphanum] at hc hdigit ⊢
    grind

theorem sound_fenceStrips {id : String} (h : Unbroken id.toList) : ∀ x ∈ fenceStrips id, x.Sound := by
  have hlocale : Row.Apart ⟨.word "locale", [(0, .symbol .colon), (1, .string "en-US")]⟩ :=
    ⟨(by decide : IsIdentifier "locale"), by simp, trivial, by simp, (by decide : '\r' ∉ "en-US".toList), by simp, trivial⟩
  have hversion : Row.Apart ⟨.word "version", [(0, .symbol .colon), (1, .number (numberValue ['1'] []) "1")]⟩ :=
    ⟨(by decide : IsIdentifier "version"), by simp, trivial, by simp, ⟨'1', [], rfl, rfl, rfl⟩, by simp, trivial⟩
  have hsymbol (symbol : Symbol) : Row.Apart ⟨.symbol symbol, []⟩ := ⟨trivial, by simp, trivial⟩
  simp only [fenceStrips, List.forall_mem_cons]
  exact ⟨Strip.sound_ofRow (hsymbol _) 0, sound_nameStrip h, Strip.sound_ofRow hlocale 0, Strip.sound_ofRow hversion 0,
    Strip.sound_ofRow (hsymbol _) 0, Strip.sound_blank, List.forall_mem_nil _⟩

theorem sound_sentence {word : String} (h : IsIdentifier word) {words : List Token} (hwords : ∀ t ∈ words, t.Writable)
    (width : Nat) : (Strip.ofRow width (.sentence (.word word) words)).Sound :=
  Strip.sound_ofRow (apart_sentence (writable_word h) hwords) width

/-- The line in front of the block of something with a name, or without one. -/
theorem sound_heading {word : String} (h : IsIdentifier word) {name : Option String}
    (hname : ∀ n ∈ name, IsIdentifier n) (width : Nat) :
    (Strip.ofRow width (.heading (.word word) (name.map .word).toList)).Sound := by
  refine Strip.sound_ofRow (apart_heading (writable_word h) ?_ ?_) width
  · simpa using fun n hn => writable_word (hname n hn)
  · cases name <;> simp

theorem apart_setting : setting.Apart := by
  have hassign : Writable (.symbol .assign) := trivial
  refine apart_sentence (writable_word (by decide)) (List.forall_mem_cons.mpr ⟨hassign, ?_⟩)
  exact List.forall_mem_singleton.mpr (writable_word (by decide))

theorem sound_storyStrips : ∀ x ∈ storyStrips, x.Sound := by
  have hstring {text : String} (h : '\r' ∉ text.toList) : Writable (.string text) := h
  simp only [storyStrips, sceneStrips, arrivalStrips, stepStrips, List.cons_append, List.nil_append,
    List.forall_mem_cons]
  refine ⟨@sound_heading "config" (by decide) none (by simp) 2, Strip.sound_ofRow apart_setting 4, Strip.sound_blank,
    @sound_heading "scene" (by decide) (some "opening") (by decide) 2,
    @sound_heading "beat" (by decide) (some "arrival") (by decide) 4, sound_sentence (by decide) ?_ 6,
    sound_sentence (by decide) ?_ 6, @sound_heading "choice" (by decide) none (by simp) 6,
    sound_sentence (by decide) ?_ 8, Strip.sound_blank, @sound_heading "beat" (by decide) (some "next_step") (by decide) 4,
    sound_sentence (by decide) ?_ 6, sound_sentence (by decide) (List.forall_mem_nil _) 6, List.forall_mem_nil _⟩
  all_goals simp only [List.forall_mem_cons]
  · exact ⟨writable_word (by decide), hstring (by decide), List.forall_mem_nil _⟩
  · exact ⟨hstring (by decide), List.forall_mem_nil _⟩
  · exact ⟨hstring (by decide), writable_word (by decide), writable_word (by decide), List.forall_mem_nil _⟩
  · exact ⟨writable_word (by decide), hstring (by decide), List.forall_mem_nil _⟩

theorem sound_sheet {id : String} (hid : Unbroken id.toList) (hne : id ≠ "") : ∀ x ∈ sheet id, x.Sound := by
  have hstory := @sound_heading "story" (by decide) (some (identifier id))
    (by simpa using isIdentifier_identifier hne) 0
  exact List.forall_mem_append.mpr ⟨sound_fenceStrips hid, List.forall_mem_cons.mpr ⟨hstory, sound_storyStrips⟩⟩

end BranchingStory.Starter
