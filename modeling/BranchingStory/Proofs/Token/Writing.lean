import BranchingStory.Token.Scan

/-! # Written tokens

A token that was written is scanned as itself, if the text behind it cannot go on with it: a blank, the end
of the line or a colon ends every token but a colon in front of a colon. -/

namespace BranchingStory.Token
open Text
set_option autoImplicit false

/-- Is the name a letter or an underscore with name characters behind it? -/
def IsIdentifier (name : String) : Prop :=
  ∃ c rest, name.toList = c :: rest ∧ isNameStart c = true ∧ ∀ d ∈ rest, isNamePart d = true

instance (name : String) : Decidable (IsIdentifier name) :=
  decidable_of_iff ((name.toList.head?.any isNameStart && name.toList.tail.all isNamePart) = true) (by
    rw [IsIdentifier, Bool.and_eq_true, List.all_eq_true]
    cases name.toList with
    | nil => simp
    | cons c rest =>
      constructor
      · rintro ⟨hc, hrest⟩
        exact ⟨c, rest, rfl, hc, hrest⟩
      · rintro ⟨_, _, ⟨⟩, hc, hrest⟩
        exact ⟨hc, hrest⟩)

/-- Can the token be written? No escape stands for a carriage return, and a number has to be spelled in
the form of its literals. -/
def Writable : Token → Prop
  | .symbol _ => True
  | .string text => '\r' ∉ text.toList
  | .number value spelling => ∃ c digits, spelling.toList = c :: digits ∧ c.isDigit = true ∧
      scanNumber c digits = ⟨some (.number value spelling), digits.length⟩
  | .word name => IsIdentifier name
  | .layout _ | .unknown _ => False

/-- How a token is written. -/
def spell : Token → List Char
  | .string text => '"' :: (escape text.toList ++ ['"'])
  | t => t.display.toList

/-- Can the token not go on in the text? -/
def EndsBefore (t : Token) (rest : List Char) : Prop :=
  ∀ c ∈ rest.head?, c = ' ' ∨ c = '\n' ∨ c = ':' ∧ t ≠ .symbol .colon

/-! ## Runs of characters -/

theorem takeWhile_append {p : Char → Bool} {run rest : List Char} (hrun : ∀ c ∈ run, p c = true)
    (hrest : ∀ c ∈ rest.head?, p c = false) : (run ++ rest).takeWhile p = run := by
  rw [List.takeWhile_append_of_pos hrun]
  cases rest with
  | nil => simp
  | cons c rest => simp [hrest c rfl]

/-- A run that ends inside a text ends there whatever stands behind the text. -/
theorem takeWhile_of_stop {p : Char → Bool} {text rest : List Char} (hrest : ∀ c ∈ rest.head?, p c = false) :
    (text ++ rest).takeWhile p = text.takeWhile p := by
  induction text with
  | nil =>
    cases rest with
    | nil => rfl
    | cons c rest => simp [hrest c rfl]
  | cons c text ih =>
    rw [List.cons_append, List.takeWhile_cons, List.takeWhile_cons, ih]

namespace EndsBefore
variable {t : Token} {rest : List Char}

theorem forall_head? (h : t.EndsBefore rest) {p : Char → Prop} (hspace : p ' ') (hline : p '\n') (hcolon : p ':') :
    ∀ c ∈ rest.head?, p c := by
  intro c hc
  rcases h c hc with rfl | rfl | ⟨rfl, -⟩
  · exact hspace
  · exact hline
  · exact hcolon

end EndsBefore

/-! ## Numbers -/

theorem fractionOf_append {text rest : List Char}
    (hrest : ∀ c ∈ rest.head?, c.isDigit = false ∧ c ≠ '.') : fractionOf (text ++ rest) = fractionOf text := by
  cases text with
  | nil =>
    cases rest with
    | nil => rfl
    | cons c rest =>
      have hc := (hrest c rfl).2
      rw [List.nil_append, fractionOf]
      · rfl
      · rintro _ ⟨⟩
        exact hc rfl
  | cons c text =>
    by_cases hc : c = '.'
    · subst hc
      exact takeWhile_of_stop fun d hd => (hrest d hd).1
    · rw [List.cons_append, fractionOf, fractionOf]
      · rintro _ ⟨⟩
        exact hc rfl
      · rintro _ ⟨⟩
        exact hc rfl

theorem length_takeWhile_le (p : Char → Bool) (text : List Char) : (text.takeWhile p).length ≤ text.length :=
  (List.takeWhile_prefix p).length_le

theorem length_fractionOf (text : List Char) : fractionOf text = [] ∨ (fractionOf text).length < text.length := by
  rw [fractionOf.eq_def]
  split
  · next digits => exact .inr (Nat.lt_succ_of_le (length_takeWhile_le _ _))
  · exact .inl rfl

/-- A number ends inside a text if what stands behind the text cannot go on with it. -/
theorem scanNumber_of_stop {c : Char} {text rest : List Char} (hrest : ∀ d ∈ rest.head?, d.isDigit = false ∧ d ≠ '.') :
    scanNumber c (text ++ rest) = scanNumber c text := by
  have hwhole : (if c = '0' then [] else (text ++ rest).takeWhile Char.isDigit) =
      if c = '0' then [] else text.takeWhile Char.isDigit := by
    rw [takeWhile_of_stop fun d hd => (hrest d hd).1]
  have hle : (if c = '0' then [] else text.takeWhile Char.isDigit).length ≤ text.length := by
    split
    · exact Nat.zero_le _
    · exact length_takeWhile_le _ _
  rw [scanNumber, scanNumber, hwhole, List.drop_append_of_le_length hle, fractionOf_append hrest]
  generalize (if c = '0' then [] else text.takeWhile Char.isDigit) = whole at hle
  have hfraction := length_fractionOf (text.drop whole.length)
  rw [List.length_drop] at hfraction
  split
  · rw [List.take_append_of_le_length hle]
  · next hsome =>
    have hlt := hfraction.resolve_left hsome
    rw [List.take_append_of_le_length (by omega)]

/-! ## String literals -/

theorem literalLength_escapeChar {c : Char} (hc : c ≠ '\r') {rest : List Char} (hrest : rest ≠ []) :
    literalLength (escapeChar c ++ rest) = (escapeChar c).length + literalLength rest := by
  have hpair : ∀ d, d ≠ '\n' → d ≠ '\r' → literalLength ('\\' :: d :: rest) = 2 + literalLength rest := by
    intro d hline hreturn
    rw [literalLength, if_neg (by decide), if_pos rfl, if_neg (by simp [hline, hreturn]), Nat.add_comm]
  unfold escapeChar
  split
  · exact hpair _ (by decide) (by decide)
  split
  · exact hpair _ (by decide) (by decide)
  split
  · exact hpair _ (by decide) (by decide)
  split
  · exact hpair _ (by decide) (by decide)
  · next hback hquote hline htab =>
    obtain ⟨d, rest, rfl⟩ := List.exists_cons_of_ne_nil hrest
    rw [List.singleton_append, literalLength, if_neg (by simp [hquote, hline, hc]), if_neg hback,
      List.length_singleton, Nat.add_comm]

theorem literalLength_escape {text : List Char} (h : '\r' ∉ text) (rest : List Char) :
    literalLength (escape text ++ '"' :: rest) = (escape text).length := by
  induction text with
  | nil =>
    cases rest <;> simp [escape, literalLength]
  | cons c text ih =>
    obtain ⟨hc, htext⟩ := not_or.mp (mt List.mem_cons.mpr h)
    have hcons : escape (c :: text) = escapeChar c ++ escape text := rfl
    rw [hcons, List.append_assoc, literalLength_escapeChar (Ne.symm hc) (by simp), ih htext, List.length_append]

theorem scanString_escape {text : String} (h : '\r' ∉ text.toList) (rest : List Char) :
    scanString (escape text.toList ++ '"' :: rest) =
      ⟨some (.string text), (escape text.toList ++ ['"']).length⟩ := by
  rw [scanString, literalLength_escape h]
  simp only [List.drop_left, List.take_left, resolve_escape, String.ofList_toList, List.length_append,
    List.length_singleton]

/-! ## Scanning -/

theorem scan_symbol (s : Symbol) {rest : List Char} (h : EndsBefore (.symbol s) rest) :
    ∃ c tail, spell (.symbol s) = c :: tail ∧ isSkippable c = false ∧
      scan c (tail ++ rest) = ⟨some (.symbol s), tail.length⟩ := by
  cases rest with
  | nil => cases s <;> exact ⟨_, _, rfl, rfl, rfl⟩
  | cons c rest =>
    rcases h c rfl with rfl | rfl | ⟨rfl, hcolon⟩
    · cases s <;> exact ⟨_, _, rfl, rfl, rfl⟩
    · cases s <;> exact ⟨_, _, rfl, rfl, rfl⟩
    · cases s with
      | colon => exact absurd rfl hcolon
      | _ => exact ⟨_, _, rfl, rfl, rfl⟩

theorem isSkippable_eq_false {c : Char} (h : isNamePart c = true) : isSkippable c = false := by
  refine Bool.eq_false_iff.mpr fun hskip => ?_
  simp only [isSkippable, Bool.or_eq_true, beq_iff_eq] at hskip
  rcases hskip with ((((rfl | rfl) | rfl) | rfl) | rfl) | rfl
  all_goals exact absurd h (by decide)

theorem isNamePart_of_isNameStart {c : Char} (h : isNameStart c = true) : isNamePart c = true := by
  rw [isNamePart, Char.isAlphanum]
  rcases Bool.or_eq_true_iff.mp h with halpha | hunderscore
  · simp [halpha]
  · simp [hunderscore]

theorem isNamePart_of_isDigit {c : Char} (h : c.isDigit = true) : isNamePart c = true := by
  simp [isNamePart, Char.isAlphanum, h]

theorem scan_word {c : Char} {tail rest : List Char} (hc : isNameStart c = true)
    (htail : ∀ d ∈ tail, isNamePart d = true) (hrest : ∀ d ∈ rest.head?, isNamePart d = false) :
    isSkippable c = false ∧ scan c (tail ++ rest) = ⟨some (.word (String.ofList (c :: tail))), tail.length⟩ := by
  have hskip := isSkippable_eq_false (isNamePart_of_isNameStart hc)
  have hline : c ≠ '\n' := by
    rintro rfl
    exact absurd hc (by decide)
  refine ⟨hskip, ?_⟩
  rw [scan, if_neg (by simp [hskip]), if_neg hline, if_pos hc, takeWhile_append htail hrest]

theorem isNameStart_eq_false_of_isDigit {c : Char} (h : c.isDigit = true) : isNameStart c = false := by
  have hle : c.val ≤ '9'.val := of_decide_eq_true (Bool.and_eq_true_iff.mp h).2
  have habove (lo : Char) (hlo : '9'.toNat < lo.toNat) (hc : lo.val ≤ c.val) : False :=
    Nat.not_le.mpr hlo (Nat.le_trans hc hle)
  refine Bool.eq_false_iff.mpr fun hstart => ?_
  rcases Bool.or_eq_true_iff.mp hstart with halpha | hunderscore
  · rcases Bool.or_eq_true_iff.mp halpha with hupper | hlower
    · exact habove 'A' (by decide) (of_decide_eq_true hupper).1
    · exact habove 'a' (by decide) (of_decide_eq_true (Bool.and_eq_true_iff.mp hlower).1)
  · obtain rfl : c = '_' := beq_iff_eq.mp hunderscore
    exact absurd hle (by decide)

theorem scan_number {c : Char} {digits rest : List Char} {t : Option Token} (hc : c.isDigit = true)
    (h : scanNumber c digits = ⟨t, digits.length⟩) (hrest : ∀ d ∈ rest.head?, d.isDigit = false ∧ d ≠ '.') :
    isSkippable c = false ∧ scan c (digits ++ rest) = ⟨t, digits.length⟩ := by
  have hskip := isSkippable_eq_false (isNamePart_of_isDigit hc)
  have hline : c ≠ '\n' := by
    rintro rfl
    exact absurd hc (by decide)
  refine ⟨hskip, ?_⟩
  rw [scan, if_neg (by simp [hskip]), if_neg hline, if_neg (by simp [isNameStart_eq_false_of_isDigit hc]),
    if_pos hc, scanNumber_of_stop hrest, h]

/-- A token that was written is scanned as itself in front of a text that ends it. -/
theorem scan_spell {t : Token} (ht : t.Writable) {rest : List Char} (hrest : t.EndsBefore rest) :
    ∃ c tail, t.spell = c :: tail ∧ isSkippable c = false ∧ scan c (tail ++ rest) = ⟨some t, tail.length⟩ := by
  cases t with
  | symbol s => exact scan_symbol s hrest
  | string text =>
    refine ⟨'"', _, rfl, rfl, ?_⟩
    rw [List.append_assoc]
    exact scanString_escape ht rest
  | number value spelling =>
    obtain ⟨c, digits, hspelling, hc, hscan⟩ := ht
    obtain ⟨hskip, hscan⟩ := scan_number hc hscan (hrest.forall_head? (by decide) (by decide) (by decide))
    exact ⟨c, digits, hspelling, hskip, hscan⟩
  | word name =>
    obtain ⟨c, tail, hname, hc, htail⟩ := ht
    obtain ⟨hskip, hscan⟩ := scan_word hc htail (hrest.forall_head? (by decide) (by decide) (by decide))
    refine ⟨c, tail, hname, hskip, ?_⟩
    rw [hscan, ← hname, String.ofList_toList]
  | layout mark => exact absurd ht id
  | unknown text => exact absurd ht id

/-! ## Scanning on -/

theorem lexemes_cons {c : Char} {tail rest : List Char} {t : Token} (h : scan c (tail ++ rest) = ⟨some t, tail.length⟩)
    (offset : Nat) : lexemes offset (c :: tail ++ rest) =
      ⟨t, ⟨offset, offset + byteLength (c :: tail)⟩⟩ :: lexemes (offset + byteLength (c :: tail)) rest := by
  rw [List.cons_append, lexemes, h]
  simp only [List.take_left, List.drop_left]

theorem lexemes_spell {t : Token} (ht : t.Writable) {rest : List Char} (hrest : t.EndsBefore rest) (offset : Nat) :
    lexemes offset (t.spell ++ rest) =
      ⟨t, ⟨offset, offset + byteLength t.spell⟩⟩ :: lexemes (offset + byteLength t.spell) rest := by
  obtain ⟨c, tail, hspell, -, hscan⟩ := scan_spell ht hrest
  rw [hspell]
  exact lexemes_cons hscan offset

theorem lexemes_lineFeed (rest : List Char) (offset : Nat) :
    lexemes offset ('\n' :: rest) = ⟨.layout .newline, ⟨offset, offset + 1⟩⟩ :: lexemes (offset + 1) rest :=
  @lexemes_cons '\n' [] rest _ rfl offset

theorem byteLength_blanks (n : Nat) : byteLength (List.replicate n ' ') = n := by
  induction n with
  | zero => rfl
  | succ n ih =>
    rw [List.replicate_succ, byteLength_cons, ih, Nat.add_comm]
    rfl

theorem lexemes_blanks {rest : List Char} (hrest : ∀ c ∈ rest.head?, isSkippable c = false) (n offset : Nat) :
    lexemes offset (List.replicate n ' ' ++ rest) = lexemes (offset + n) rest := by
  cases n with
  | zero => rfl
  | succ n =>
    have hblanks : ∀ c ∈ List.replicate n ' ', isSkippable c = true := by
      intro c hc
      rw [List.eq_of_mem_replicate hc]
      rfl
    have hscan : scan ' ' (List.replicate n ' ' ++ rest) = ⟨none, n⟩ := by
      rw [scan, if_pos (by decide), takeWhile_append hblanks hrest, List.length_replicate]
    have htake : (List.replicate n ' ' ++ rest).take n = List.replicate n ' ' :=
      List.take_left' (List.length_replicate ..)
    have hdrop : (List.replicate n ' ' ++ rest).drop n = rest := List.drop_left' (List.length_replicate ..)
    rw [List.replicate_succ, List.cons_append, lexemes, hscan]
    simp only [htake, hdrop, byteLength_cons, byteLength_blanks]
    rw [Nat.add_comm n 1]
    rfl

/-! ## Rows -/

/-- A token with the number of blanks in front of it. -/
abbrev Cell := Nat × Token

namespace Cell

def text (cells : List Cell) : List Char := cells.flatMap fun (gap, t) => List.replicate gap ' ' ++ t.spell

/-- The tokens with their places, if the first blank stands at the offset. -/
def place (offset : Nat) : List Cell → List Lexeme
  | [] => []
  | (gap, t) :: rest =>
    let stop := offset + gap + byteLength t.spell
    ⟨t, ⟨offset + gap, stop⟩⟩ :: place stop rest

/-- Can all the tokens be written, and does each end in front of the next one? Where no blank stands
between two of them, the second one is a colon and the first one is not. -/
def Apart : List Cell → Prop
  | [] => True
  | (_, t) :: rest =>
    t.Writable ∧ (∀ next ∈ rest.head?, 0 < next.1 ∨ next.2 = .symbol .colon ∧ t ≠ .symbol .colon) ∧ Apart rest

variable {cells more : List Cell} {offset : Nat}

@[simp] theorem text_nil : text [] = [] := rfl

@[simp] theorem text_cons (gap : Nat) (t : Token) (rest : List Cell) :
    text ((gap, t) :: rest) = List.replicate gap ' ' ++ (t.spell ++ text rest) := by
  rw [text, List.flatMap_cons, List.append_assoc]
  rfl

theorem text_append : text (cells ++ more) = text cells ++ text more := List.flatMap_append

theorem byteLength_text_cons (gap : Nat) (t : Token) (rest : List Cell) :
    byteLength (text ((gap, t) :: rest)) = gap + byteLength t.spell + byteLength (text rest) := by
  rw [text_cons, byteLength_append, byteLength_append, byteLength_blanks, Nat.add_assoc]

theorem place_append : place offset (cells ++ more) =
    place offset cells ++ place (offset + byteLength (text cells)) more := by
  induction cells generalizing offset with
  | nil => rfl
  | cons cell cells ih =>
    obtain ⟨gap, t⟩ := cell
    simp only [List.cons_append, place, ih, byteLength_text_cons, Nat.add_assoc]

theorem map_node_place : (place offset cells).map (·.node) = cells.map (·.2) := by
  induction cells generalizing offset with
  | nil => rfl
  | cons cell cells ih =>
    obtain ⟨gap, t⟩ := cell
    rw [place, List.map_cons, List.map_cons, ih]

theorem endsBefore_text {gap : Nat} {t : Token} (h : Apart ((gap, t) :: cells)) (behind : List Char)
    (hbehind : ∀ c ∈ behind.head?, c = '\n') : t.EndsBefore (text cells ++ behind) := by
  obtain ⟨-, hnext, -⟩ := h
  cases cells with
  | nil => exact fun c hc => .inr (.inl (hbehind c hc))
  | cons next cells =>
    obtain ⟨between, u⟩ := next
    intro c hc
    rw [text_cons] at hc
    rcases hnext _ rfl with hgap | ⟨hu, ht⟩
    · obtain ⟨n, rfl⟩ := Nat.exists_eq_succ_of_ne_zero (Nat.ne_of_gt hgap)
      obtain rfl : ' ' = c := by simpa [List.replicate_succ] using hc
      exact .inl rfl
    · cases between with
      | zero =>
        obtain rfl : u = .symbol .colon := hu
        obtain rfl : ':' = c := by simpa [spell, display, Symbol.spelling] using hc
        exact .inr (.inr ⟨rfl, ht⟩)
      | succ n =>
        obtain rfl : ' ' = c := by simpa [List.replicate_succ] using hc
        exact .inl rfl

/-- The text of cells that are apart is scanned as their tokens, at the end of a line or of the whole text. -/
theorem lexemes_text (h : Apart cells) (behind : List Char) (hbehind : ∀ c ∈ behind.head?, c = '\n') :
    lexemes offset (text cells ++ behind) =
      place offset cells ++ lexemes (offset + byteLength (text cells)) behind := by
  induction cells generalizing offset with
  | nil => rfl
  | cons cell cells ih =>
    obtain ⟨gap, t⟩ := cell
    have hends := endsBefore_text h behind hbehind
    obtain ⟨ht, -, hrest⟩ := h
    obtain ⟨c, tail, hspell, hskip, -⟩ := scan_spell ht hends
    have hhead : ∀ d ∈ (t.spell ++ (text cells ++ behind)).head?, isSkippable d = false := by
      rw [hspell]
      rintro d ⟨⟩
      exact hskip
    rw [text_cons, List.append_assoc, List.append_assoc, lexemes_blanks hhead, lexemes_spell ht hends, ih hrest,
      ← text_cons, byteLength_text_cons, place]
    simp only [List.cons_append, Nat.add_assoc]

end Cell

end BranchingStory.Token
