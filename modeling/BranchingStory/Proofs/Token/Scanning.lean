import BranchingStory.Proofs.Token.Writing

/-! # Scanning by cases

What stands at the front of a text is a piece of one of eight kinds. A slash goes on only with comments,
unknown text and the inside of string literals, so a piece that ends in front of one is the same whatever stands
behind it. -/

namespace BranchingStory.Token
open Text
set_option autoImplicit false

section Scan
variable {c : Char} {rest : List Char}

/-- What holds of every kind of piece holds of what stands at the front of a text. -/
theorem scan_cases {motive : Scan → Prop}
    (blanks : isSkippable c = true → motive ⟨none, (rest.takeWhile isSkippable).length⟩)
    (lineFeed : c = '\n' → motive ⟨some (.layout .newline), 0⟩)
    (word : isNameStart c = true → motive
      ⟨some (.word (String.ofList (c :: rest.takeWhile isNamePart))), (rest.takeWhile isNamePart).length⟩)
    (number : c.isDigit = true → motive (scanNumber c rest))
    (string : c = '"' → motive (scanString rest))
    (comment : ∀ s, scanComment? c rest = some s → motive s)
    (symbol : ∀ s more, symbol? c rest = some (s, more) → motive ⟨some (.symbol s), more⟩)
    (unknown : motive ⟨some (.unknown (String.ofList [c])), 0⟩) : motive (scan c rest) := by
  rw [scan]
  split
  · exact blanks ‹_›
  split
  · exact lineFeed ‹_›
  split
  · exact word ‹_›
  split
  · exact number ‹_›
  split
  · exact string ‹_›
  split
  · exact comment _ ‹_›
  split
  · exact symbol _ _ ‹_›
  · exact unknown

/-- Induction over the pieces of a text. -/
theorem scan_induction {motive : List Char → Prop} (text : List Char) (nil : motive [])
    (piece : ∀ c rest, motive (rest.drop (scan c rest).more) → motive (c :: rest)) : motive text := by
  match text with
  | [] => exact nil
  | c :: rest => exact piece c rest (scan_induction _ nil piece)
termination_by text.length
decreasing_by
  simp only [List.length_cons, List.length_drop]
  omega

/-- Behind a quote there is always a token. -/
theorem exists_of_scanString (rest : List Char) : ∃ t, (scanString rest).token? = some t := by
  rw [scanString]
  split <;> exact ⟨_, rfl⟩

/-- Is the text what a word can be? -/
def IsName (name : String) : Prop := name.toList ≠ [] ∧ ∀ c ∈ name.toList, isNamePart c = true

/-- Is the token neither a mark nor a word? -/
def IsPlain (t : Token) : Prop := t.isLayout = false ∧ ∀ name, t ≠ .word name

theorem isName_scanned (h : isNameStart c = true) (rest : List Char) :
    IsName (String.ofList (c :: rest.takeWhile isNamePart)) := by
  have hc : isNamePart c = true := by
    simp only [isNameStart, isNamePart, Char.isAlphanum, Bool.or_eq_true] at h ⊢
    exact h.imp_left .inl
  rw [IsName, String.toList_ofList]
  exact ⟨by simp, List.forall_mem_cons.mpr ⟨hc, List.all_eq_true.mp List.all_takeWhile⟩⟩

theorem scanComment?_plain {s : Scan} {t : Token}
    (h : scanComment? c rest = some s) (ht : s.token? = some t) : IsPlain t := by
  rw [scanComment?.eq_def] at h
  split at h
  · obtain rfl := Option.some.inj h
    exact absurd ht (by simp)
  · split at h
    · obtain rfl := Option.some.inj h
      exact absurd ht (by simp)
    · obtain rfl := Option.some.inj h
      obtain rfl := Option.some.inj ht
      exact ⟨rfl, by simp⟩
  · exact absurd h (by simp)

theorem scanString_plain {t : Token} (ht : (scanString rest).token? = some t) :
    IsPlain t := by
  rw [scanString] at ht
  split at ht
  all_goals
    obtain rfl := Option.some.inj ht
    exact ⟨rfl, by simp⟩

/-- A scanned token is a line feed, a word of name characters, or neither a mark nor a word. -/
theorem scan_token {t : Token} (h : (scan c rest).token? = some t) :
    (c = '\n' ∧ t = .layout .newline ∧ (scan c rest).more = 0) ∨
      (∃ name, t = .word name ∧ IsName name) ∨ IsPlain t := by
  revert h
  refine scan_cases (motive := fun s => s.token? = some t → (c = '\n' ∧ t = .layout .newline ∧ s.more = 0) ∨
    (∃ name, t = .word name ∧ IsName name) ∨ IsPlain t)
    ?blanks ?lineFeed ?word ?number ?string ?comment ?symbol ?unknown
  case blanks => exact fun _ h => absurd h (by simp)
  case lineFeed =>
    rintro hc ⟨⟩
    exact .inl ⟨hc, rfl, rfl⟩
  case word =>
    rintro hstart ⟨⟩
    exact .inr (.inl ⟨_, rfl, isName_scanned hstart rest⟩)
  case number =>
    rintro - ⟨⟩
    exact .inr (.inr ⟨rfl, by simp⟩)
  case string => exact fun _ h => .inr (.inr (scanString_plain h))
  case comment => exact fun s hs h => .inr (.inr (scanComment?_plain hs h))
  case symbol =>
    rintro s more - ⟨⟩
    exact .inr (.inr ⟨rfl, by simp⟩)
  case unknown =>
    rintro ⟨⟩
    exact .inr (.inr ⟨rfl, by simp⟩)

theorem scan_lineFeed_or_proper {t : Token} (h : (scan c rest).token? = some t) :
    (c = '\n' ∧ t = .layout .newline ∧ (scan c rest).more = 0) ∨ t.isLayout = false := by
  obtain hline | ⟨name, rfl, -⟩ | hplain := scan_token h
  · exact .inl hline
  · exact .inr rfl
  · exact .inr hplain.1

theorem isSkippable_of_scan {t : Token} (h : (scan c rest).token? = some t) : isSkippable c = false := by
  refine Bool.eq_false_iff.mpr fun hskip => ?_
  rw [scan, if_pos hskip] at h
  exact absurd h (by simp)

/-- A run ends in front of the first character that does not belong to it. -/
theorem exists_run (p : Char → Bool) (text : List Char) :
    ∃ run rest, text = run ++ rest ∧ text.takeWhile p = run ∧ (∀ c ∈ run, p c = true) ∧
      ∀ c ∈ rest.head?, p c = false := by
  refine ⟨text.takeWhile p, text.dropWhile p, List.takeWhile_append_dropWhile.symm, rfl,
    List.all_eq_true.mp List.all_takeWhile, fun c hc => ?_⟩
  have hstop := List.head?_dropWhile_not p text
  rwa [Option.mem_def.mp hc] at hstop

end Scan

/-! ## Block comments -/

/-- Is there no closing sign in the text of a block comment? -/
def Unclosed (comment : List Char) : Prop := ¬ ['*', '/'] <:+: comment

instance (comment : List Char) : Decidable (Unclosed comment) := inferInstanceAs (Decidable (¬ _))

/-- A block comment goes up to the first closing sign. -/
theorem commentLength?_eq_some_iff {text : List Char} {n : Nat} :
    commentLength? text = some n ↔
      ∃ comment rest, text = comment ++ '*' :: '/' :: rest ∧ n = comment.length + 2 ∧ Unclosed comment := by
  fun_induction commentLength? text generalizing n with
  | case1 => simp
  | case2 c =>
    refine iff_of_false (by simp) ?_
    rintro ⟨comment, rest, htext, -⟩
    have hlength := congrArg List.length htext
    simp at hlength
    omega
  | case3 c d rest hclosed =>
    obtain ⟨rfl, rfl⟩ := hclosed
    constructor
    · intro h
      obtain rfl := Option.some.inj h
      exact ⟨[], rest, rfl, rfl, by simp [Unclosed]⟩
    · rintro ⟨comment, behind, htext, rfl, hunclosed⟩
      match comment with
      | [] => rfl
      | [a] =>
        obtain ⟨-, hslash⟩ := List.cons.inj htext
        exact absurd (List.cons.inj hslash).1 (by decide)
      | a :: b :: comment =>
        obtain ⟨ha, hmore⟩ := List.cons.inj htext
        obtain ⟨hb, -⟩ := List.cons.inj hmore
        rw [← ha, ← hb] at hunclosed
        exact absurd (List.prefix_append ['*', '/'] comment).isInfix hunclosed
  | case4 c d rest hopen ih =>
    rw [Option.map_eq_some_iff]
    constructor
    · rintro ⟨n, hn, rfl⟩
      obtain ⟨comment, behind, htext, rfl, hunclosed⟩ := ih.mp hn
      refine ⟨c :: comment, behind, congrArg _ htext, rfl, fun hinfix => ?_⟩
      rcases List.infix_cons_iff.mp hinfix with hprefix | hinfix
      · obtain ⟨hc, hprefix⟩ := List.cons_prefix_cons.mp hprefix
        cases comment with
        | nil => simp at hprefix
        | cons e comment =>
          obtain ⟨he, -⟩ := List.cons_prefix_cons.mp hprefix
          exact hopen ⟨hc.symm, (List.cons.inj htext).1.trans he.symm⟩
      · exact hunclosed hinfix
    · rintro ⟨comment, behind, htext, rfl, hunclosed⟩
      cases comment with
      | nil =>
        obtain ⟨hc, hmore⟩ := List.cons.inj htext
        exact absurd ⟨hc, (List.cons.inj hmore).1⟩ hopen
      | cons e comment =>
        obtain ⟨-, hmore⟩ := List.cons.inj htext
        exact ⟨_, ih.mpr ⟨comment, behind, hmore, rfl, fun hinfix => hunclosed (List.infix_cons hinfix)⟩, rfl⟩

/-! ## The length of a piece -/

section Length
variable {c : Char} {rest : List Char}

theorem more_scanNumber_le : (scanNumber c rest).more ≤ rest.length := by
  rw [scanNumber]
  have hwhole : (if c = '0' then [] else rest.takeWhile Char.isDigit).length ≤ rest.length := by
    split
    · exact Nat.zero_le _
    · exact length_takeWhile_le _ _
  generalize (if c = '0' then [] else rest.takeWhile Char.isDigit) = whole at hwhole ⊢
  have hfraction := length_fractionOf (rest.drop whole.length)
  rw [List.length_drop] at hfraction
  dsimp only
  split
  · exact hwhole
  · next hsome =>
    have hlt := hfraction.resolve_left hsome
    omega

theorem literalLength_le (text : List Char) : literalLength text ≤ text.length := by
  fun_induction literalLength text <;> simp only [List.length_cons, List.length_nil] at * <;> omega

theorem more_scanString_le : (scanString rest).more ≤ rest.length := by
  rw [scanString]
  split
  · next hquote =>
    have hlength := congrArg List.length hquote
    rw [List.length_drop, List.length_cons] at hlength
    dsimp only
    omega
  · exact literalLength_le rest

theorem more_scanComment?_le : ∀ s ∈ scanComment? c rest, s.more ≤ rest.length := by
  intro s hs
  rw [Option.mem_def, scanComment?.eq_def] at hs
  split at hs
  · obtain rfl := Option.some.inj hs
    have hline := length_takeWhile_le (· != '\n')
    simp only [List.length_cons, Nat.add_comm 1, Nat.succ_le_succ_iff, hline]
  · split at hs
    · next hlength =>
      obtain ⟨comment, behind, rfl, rfl, -⟩ := commentLength?_eq_some_iff.mp hlength
      obtain rfl := Option.some.inj hs
      simp only [List.length_cons, List.length_append]
      omega
    · obtain rfl := Option.some.inj hs
      exact Nat.le_refl _
  · exact absurd hs (by simp)

theorem symbol?_le {s : Symbol} {more : Nat} (h : symbol? c rest = some (s, more)) : more ≤ rest.length := by
  unfold symbol? at h
  split at h <;> simp_all <;> omega

/-- No piece goes over the end of its text. -/
theorem more_scan_le (c : Char) (rest : List Char) : (scan c rest).more ≤ rest.length := by
  refine scan_cases (motive := fun s => s.more ≤ rest.length)
    ?blanks ?lineFeed ?word ?number ?string ?comment ?symbol ?unknown
  case blanks => exact fun _ => length_takeWhile_le _ _
  case lineFeed => exact fun _ => Nat.zero_le _
  case word => exact fun _ => length_takeWhile_le _ _
  case number => exact fun _ => more_scanNumber_le
  case string => exact fun _ => more_scanString_le
  case comment => exact more_scanComment?_le
  case symbol => exact fun _ _ => symbol?_le
  case unknown => exact Nat.zero_le _

end Length

/-! ## Pieces in front of a slash -/

theorem symbol?_colon (rest : List Char) :
    symbol? ':' rest = if [':', ':', 'm', 'e', 't', 'a'] <+: rest then some (.fenceOpen, 6)
      else if [':', ':'] <+: rest then some (.fenceClose, 2) else some (.colon, 0) := by
  unfold symbol?
  split
  · next tail _ => rw [if_pos ⟨tail, rfl⟩]
  · next tail hopen _ =>
    rw [if_neg, if_pos ⟨tail, rfl⟩]
    rintro ⟨more, hmore⟩
    simp only [List.cons_append, List.nil_append, List.cons.injEq, true_and] at hmore
    exact hopen more hmore.symm
  · next other _ _ _ _ hclose =>
    have hshort : ¬ [':', ':'] <+: other := by
      rintro ⟨more, hmore⟩
      exact hclose more hmore.symm
    have hlong : ¬ [':', ':', 'm', 'e', 't', 'a'] <+: other :=
      fun hopen => hshort ((List.prefix_append [':', ':'] ['m', 'e', 't', 'a']).trans hopen)
    rw [if_neg hlong, if_neg hshort]
  all_goals simp_all

/-- Behind any character but a colon, a symbol goes on at most with one equals sign. -/
theorem symbol?_cons {c : Char} (hc : c ≠ ':') (d : Char) (rest : List Char) :
    symbol? c (d :: rest) = if d = '=' then symbol? c ['='] else symbol? c [] := by
  split
  · next hd =>
    subst hd
    unfold symbol?
    split <;> simp_all
  · next hd =>
    unfold symbol?
    split <;> simp_all

theorem prefix_stop {word text behind : List Char} {d : Char} (h : d ∉ word) :
    word <+: text ++ d :: behind ↔ word <+: text := by
  induction word generalizing text with
  | nil => simp
  | cons c word ih =>
    obtain ⟨hc, hword⟩ := not_or.mp (mt List.mem_cons.mpr h)
    cases text with
    | nil => simp [List.cons_prefix_cons, Ne.symm hc]
    | cons e text => rw [List.cons_append, List.cons_prefix_cons, List.cons_prefix_cons, ih hword]

/-- A symbol ends in front of a character with which none goes on. -/
theorem symbol?_stop {d : Char} (hd : d ∉ [':', '=', 'm', 'e', 't', 'a']) (c : Char) (text behind : List Char) :
    symbol? c (text ++ d :: behind) = symbol? c text := by
  have hopen : d ∉ [':', ':', 'm', 'e', 't', 'a'] := by simp_all
  have hclose : d ∉ [':', ':'] := by simp_all
  have hequals : d ≠ '=' := fun heq => hd (by simp [heq])
  by_cases hc : c = ':'
  · simp only [hc, symbol?_colon, prefix_stop hopen, prefix_stop hclose]
  · cases text with
    | nil => rw [List.nil_append, symbol?_cons hc, if_neg hequals]
    | cons e text => rw [List.cons_append, symbol?_cons hc, symbol?_cons hc e text]

/-- Is it a character with which no name, no number and no symbol goes on? -/
def IsStop (d : Char) : Prop := isNamePart d = false ∧ d ∉ ['.', ':', '=']

instance (d : Char) : Decidable (IsStop d) := inferInstanceAs (Decidable (_ ∧ _))

theorem scan_of_comment {rest : List Char} {s : Scan} (h : scanComment? '/' rest = some s) : scan '/' rest = s := by
  rw [scan, h]
  rfl

/-- Only strings and comments go on with such a character, and blanks if it is blank. -/
theorem scan_stop {c d : Char} {text other : List Char} (hd : IsStop d)
    (hblanks : isSkippable c = true → isSkippable d = false)
    (hstring : c = '"' → scanString (text ++ d :: other) = scanString text)
    (hcomment : c = '/' → scanComment? '/' (text ++ d :: other) = scanComment? '/' text) :
    scan c (text ++ d :: other) = scan c text := by
  obtain ⟨hpart, hsign⟩ := hd
  have hrun : ∀ {p : Char → Bool}, p d = false → (text ++ d :: other).takeWhile p = text.takeWhile p :=
    fun hp => takeWhile_of_stop (by simpa using hp)
  by_cases hskip : isSkippable c = true
  · rw [scan, scan, if_pos hskip, if_pos hskip, hrun (hblanks hskip)]
  by_cases hline : c = '\n'
  · rw [scan, scan, if_neg hskip, if_pos hline, if_neg hskip, if_pos hline]
  by_cases hname : isNameStart c = true
  · simp only [scan, if_neg hskip, if_neg hline, if_pos hname, hrun hpart]
  by_cases hdigit : c.isDigit = true
  · simp only [scan, if_neg hskip, if_neg hline, if_neg hname, if_pos hdigit]
    have hwhole : d.isDigit = false := by
      simp only [isNamePart, Char.isAlphanum, Bool.or_eq_false_iff] at hpart
      exact hpart.1.2
    have hpoint : d ≠ '.' := fun heq => hsign (by simp [heq])
    exact scanNumber_of_stop (by simpa using ⟨hwhole, hpoint⟩)
  by_cases hquote : c = '"'
  · simp only [scan, if_neg hskip, if_neg hline, if_neg hname, if_neg hdigit, if_pos hquote, hstring hquote]
  have hnone : ∀ e ∈ [':', '=', 'm', 'e', 't', 'a'], ¬ IsStop e := by simp [IsStop, isNamePart]
  have hsymbol : d ∉ [':', '=', 'm', 'e', 't', 'a'] := fun hmem => hnone d hmem ⟨hpart, hsign⟩
  have hsame : scanComment? c (text ++ d :: other) = scanComment? c text := by
    by_cases hc : c = '/'
    · rw [hc, hcomment hc]
    · simp [scanComment?, hc]
  simp only [scan, if_neg hskip, if_neg hline, if_neg hname, if_neg hdigit, if_neg hquote, hsame, symbol?_stop hsymbol]

section Slash
variable {c : Char} {text behind : List Char}

/-- A slash is literal text, so a run of it that ends in front of one has ended before. -/
theorem literalLength_slash (h : literalLength (text ++ '/' :: behind) ≤ text.length) (other : List Char) :
    literalLength (text ++ '/' :: other) = literalLength text ∧ literalLength text < text.length := by
  have hslash : 0 < literalLength ('/' :: behind) := by cases behind <;> simp [literalLength]
  fun_induction literalLength text with
  | case1 => exact absurd h (Nat.not_le.mpr hslash)
  | case2 c hc =>
    rw [List.singleton_append, literalLength] at h ⊢
    by_cases hend : c = '"' ∨ c = '\n' ∨ c = '\r'
    · rw [if_pos hend]
      exact ⟨rfl, Nat.one_pos⟩
    · obtain rfl : c = '\\' := by
        rcases hc with hc | hc | hc
        · exact absurd (.inl hc) hend
        · exact hc
        · exact absurd (.inr hc) hend
      rw [if_neg hend, if_pos rfl, if_neg (by decide), List.length_singleton] at h
      omega
  | case3 c hc =>
    obtain ⟨hquote, hback, hend⟩ : c ≠ '"' ∧ c ≠ '\\' ∧ ¬(c = '\n' ∨ c = '\r') := by simpa using hc
    rw [List.singleton_append, literalLength, if_neg (not_or.mpr ⟨hquote, hend⟩), if_neg hback,
      List.length_singleton] at h
    omega
  | case4 c d rest hc =>
    rw [List.cons_append, List.cons_append, literalLength, if_pos hc]
    exact ⟨rfl, Nat.succ_pos _⟩
  | case5 d rest hd hc =>
    rw [List.cons_append, List.cons_append, literalLength, if_neg hc, if_pos rfl, if_pos hd]
    exact ⟨rfl, Nat.succ_pos _⟩
  | case6 d rest hd hc ih =>
    rw [List.cons_append, List.cons_append, literalLength, if_neg hc, if_pos rfl, if_neg hd] at h ⊢
    obtain ⟨heq, hlt⟩ := ih (by simpa using h)
    rw [heq]
    exact ⟨rfl, by simpa using hlt⟩
  | case7 c d rest hc hback ih =>
    rw [List.cons_append, List.cons_append, literalLength, if_neg hc, if_neg hback] at h ⊢
    obtain ⟨heq, hlt⟩ := ih (by simpa using h)
    rw [← List.cons_append, heq]
    exact ⟨rfl, by simpa using hlt⟩

theorem scanString_slash (h : (scanString (text ++ '/' :: behind)).more ≤ text.length) (other : List Char) :
    scanString (text ++ '/' :: other) = scanString text := by
  have hinner : literalLength (text ++ '/' :: behind) ≤ text.length := by
    refine Nat.le_trans ?_ h
    rw [scanString]
    split
    · exact Nat.le_succ _
    · exact Nat.le_refl _
  obtain ⟨hlength, hlt⟩ := literalLength_slash hinner other
  have hdrop : text.drop (literalLength text) ≠ [] := by simpa using hlt
  obtain ⟨d, rest, hrest⟩ := List.exists_cons_of_ne_nil hdrop
  rw [scanString, scanString, hlength, List.drop_append_of_le_length (Nat.le_of_lt hlt),
    List.take_append_of_le_length (Nat.le_of_lt hlt), hrest, List.cons_append]
  by_cases hd : d = '"'
  · subst hd
    rfl
  · split
    · next heq => exact absurd (List.cons.inj heq).1 hd
    · split
      · next heq => exact absurd (List.cons.inj heq).1 hd
      · rfl

theorem commentLength?_append {n : Nat} (h : commentLength? text = some n) (more : List Char) :
    commentLength? (text ++ more) = some n := by
  obtain ⟨comment, rest, rfl, hn, hcomment⟩ := commentLength?_eq_some_iff.mp h
  exact commentLength?_eq_some_iff.mpr ⟨comment, rest ++ more, by simp, hn, hcomment⟩

theorem commentLength?_of_append {n : Nat} {more : List Char} (h : commentLength? (text ++ more) = some n)
    (hn : n ≤ text.length) : commentLength? text = some n := by
  obtain ⟨comment, rest, hsplit, rfl, hcomment⟩ := commentLength?_eq_some_iff.mp h
  have hfront : comment ++ ['*', '/'] <+: text ++ more := ⟨rest, by rw [hsplit]; simp⟩
  obtain ⟨behind, rfl⟩ := List.prefix_of_prefix_length_le hfront (List.prefix_append text more) (by simpa using hn)
  exact commentLength?_eq_some_iff.mpr ⟨comment, behind, by simp, rfl, hcomment⟩

/-- The rest of a line that ends in front of a slash ends at a line feed. -/
theorem takeWhile_line (h : ((text ++ '/' :: behind).takeWhile (· != '\n')).length ≤ text.length)
    (other : List Char) :
    (text ++ other).takeWhile (· != '\n') = (text ++ '/' :: behind).takeWhile (· != '\n') := by
  obtain ⟨line, rest, rfl, -, hline, hend⟩ := exists_run (· != '\n') text
  cases rest with
  | nil =>
    rw [List.append_nil, List.takeWhile_append_of_pos hline, List.takeWhile_cons_of_pos (by decide),
      List.length_append, List.length_cons] at h
    omega
  | cons c rest =>
    have hstop : ∀ more, ∀ d ∈ (c :: rest ++ more).head?, (d != '\n') = false := fun _ d hd => hend d hd
    rw [List.append_assoc, List.append_assoc, takeWhile_append hline (hstop _), takeWhile_append hline (hstop _)]

theorem scanComment?_of_some {s : Scan} (hs : scanComment? c (text ++ '/' :: behind) = some s)
    (h : s.more ≤ text.length) (other : List Char) : scanComment? c (text ++ other) = some s := by
  cases text with
  | nil =>
    rw [scanComment?.eq_def] at hs
    split at hs
    · obtain rfl := Option.some.inj hs
      dsimp only [List.length_nil] at h
      omega
    · next heq => exact absurd (List.cons.inj heq).1 (by decide)
    · exact absurd hs (by simp)
  | cons d text =>
    rw [List.cons_append] at hs ⊢
    rw [scanComment?.eq_def] at hs
    split at hs
    · next line heq =>
      obtain ⟨rfl, rfl⟩ := List.cons.inj heq
      obtain rfl := Option.some.inj hs
      have hle : ((text ++ '/' :: behind).takeWhile (· != '\n')).length ≤ text.length := by
        dsimp only [List.length_cons] at h
        omega
      rw [scanComment?, takeWhile_line hle]
    · next line heq =>
      obtain ⟨rfl, rfl⟩ := List.cons.inj heq
      split at hs
      · next n hn =>
        obtain rfl := Option.some.inj hs
        dsimp only [List.length_cons] at h
        have hcomment := commentLength?_of_append hn (by omega)
        rw [scanComment?, commentLength?_append hcomment]
      · obtain rfl := Option.some.inj hs
        simp only [List.length_cons, List.length_append] at h
        omega
    · exact absurd hs (by simp)

theorem scanComment?_of_none (hs : scanComment? '/' (text ++ '/' :: behind) = none) (other : List Char) :
    scanComment? '/' (text ++ other) = none := by
  cases text with
  | nil => exact absurd hs (by simp [scanComment?])
  | cons d text =>
    rw [List.cons_append] at hs ⊢
    have hline : d ≠ '/' := by
      rintro rfl
      exact absurd hs (by simp [scanComment?])
    have hblock : d ≠ '*' := by
      rintro rfl
      rw [scanComment?] at hs
      split at hs <;> exact absurd hs (by simp)
    rw [scanComment?.eq_def]
    split
    · next heq => exact absurd (List.cons.inj heq).1 hline
    · next heq => exact absurd (List.cons.inj heq).1 hblock
    · rfl

/-- A piece that ends in front of a slash is the same whatever stands behind the slash, or if nothing does. -/
theorem scan_slash (h : (scan c (text ++ '/' :: behind)).more ≤ text.length) (other : List Char) :
    scan c (text ++ '/' :: other) = scan c text := by
  refine scan_stop (by decide) (fun _ => rfl) ?string ?comment
  case string =>
    rintro rfl
    exact scanString_slash h other
  case comment =>
    rintro rfl
    cases hs : scanComment? '/' (text ++ '/' :: behind) with
    | none =>
      have hnone := scanComment?_of_none hs
      rw [hnone, ← List.append_nil text, hnone]
    | some s =>
      rw [scan_of_comment hs] at h
      have hsome := scanComment?_of_some hs h
      rw [hsome, ← List.append_nil text, hsome]

end Slash

/-! ## Pieces in front of the end of a line -/

section LineEnd
variable {text behind : List Char}

theorem scanComment?_eq_none {c d : Char} (h : ¬ (c = '/' ∧ (d = '/' ∨ d = '*'))) (rest : List Char) :
    scanComment? c (d :: rest) = none := by
  rw [scanComment?.eq_def]
  split
  · next heq => exact absurd ⟨rfl, .inl (List.cons.inj heq).1⟩ h
  · next heq => exact absurd ⟨rfl, .inr (List.cons.inj heq).1⟩ h
  · rfl

theorem literalLength_lineEnd {d : Char} (hd : d = '\n' ∨ d = '\r') (text other : List Char) :
    literalLength (text ++ d :: other) = literalLength text := by
  have hline : literalLength (d :: other) = 0 := by
    obtain rfl | rfl := hd <;> cases other <;> simp [literalLength]
  fun_induction literalLength text with
  | case1 => exact hline
  | case2 c hc =>
    rw [List.singleton_append, literalLength]
    by_cases hend : c = '"' ∨ c = '\n' ∨ c = '\r'
    · rw [if_pos hend]
    · obtain rfl : c = '\\' := by
        rcases hc with hc | hc | hc
        · exact absurd (.inl hc) hend
        · exact hc
        · exact absurd (.inr hc) hend
      rw [if_neg hend, if_pos rfl, if_pos hd]
  | case3 c hc =>
    obtain ⟨hquote, hback, hend⟩ : c ≠ '"' ∧ c ≠ '\\' ∧ ¬(c = '\n' ∨ c = '\r') := by simpa using hc
    rw [List.singleton_append, literalLength, if_neg (not_or.mpr ⟨hquote, hend⟩), if_neg hback, hline]
  | case4 c d rest hc => rw [List.cons_append, List.cons_append, literalLength, if_pos hc]
  | case5 d rest hd hc => rw [List.cons_append, List.cons_append, literalLength, if_neg hc, if_pos rfl, if_pos hd]
  | case6 d rest hd hc ih =>
    rw [List.cons_append, List.cons_append, literalLength, if_neg hc, if_pos rfl, if_neg hd, ih]
  | case7 c d rest hc hback ih =>
    rw [List.cons_append, List.cons_append, literalLength, if_neg hc, if_neg hback, ← List.cons_append, ih]

/-- Literal text ends with its line. -/
theorem scanString_lineEnd {d : Char} (hd : d = '\n' ∨ d = '\r') (text other : List Char) :
    scanString (text ++ d :: other) = scanString text := by
  have hle : literalLength text ≤ text.length := literalLength_le text
  rw [scanString, scanString, literalLength_lineEnd hd, List.drop_append_of_le_length hle,
    List.take_append_of_le_length hle]
  cases hrest : text.drop (literalLength text) with
  | nil => obtain rfl | rfl := hd <;> rfl
  | cons d rest =>
    rw [List.cons_append]
    by_cases hd : d = '"'
    · subst hd
      rfl
    · split
      · next heq => exact absurd (List.cons.inj heq).1 hd
      · split
        · next heq => exact absurd (List.cons.inj heq).1 hd
        · rfl

theorem scanComment?_lineFeed (h : ∀ s ∈ scanComment? '/' (text ++ '\n' :: behind), s.more ≤ text.length)
    (other : List Char) : scanComment? '/' (text ++ '\n' :: other) = scanComment? '/' text := by
  cases text with
  | nil => rfl
  | cons d text =>
    rw [List.cons_append] at h ⊢
    by_cases hline : d = '/'
    · subst hline
      rw [scanComment?, scanComment?, takeWhile_of_stop (by simp)]
    by_cases hblock : d = '*'
    · subst hblock
      rw [scanComment?] at h
      cases hn : commentLength? (text ++ '\n' :: behind) with
      | none =>
        -- An unclosed comment goes beyond the line feed.
        rw [hn] at h
        have hle := h _ rfl
        simp only [List.length_cons, List.length_append] at hle
        omega
      | some n =>
        rw [hn] at h
        have hle := h _ rfl
        dsimp only [List.length_cons] at hle
        have hinside := commentLength?_of_append hn (by omega)
        rw [scanComment?, scanComment?, hinside, commentLength?_append hinside]
    · have hnone : ¬ ('/' = '/' ∧ (d = '/' ∨ d = '*')) := by simp [hline, hblock]
      rw [scanComment?_eq_none hnone, scanComment?_eq_none hnone]

/-- Tokens that do not begin a comment end with their line. -/
theorem scan_lineEnd {c d : Char} (hd : d = '\n' ∨ d = '\r') (hc : isSkippable c = false)
    (hcomment : scanComment? c text = none) (other : List Char) : scan c (text ++ d :: other) = scan c text := by
  refine scan_stop (by obtain rfl | rfl := hd <;> decide) (fun hskip => absurd hskip (by simp [hc]))
    (fun _ => scanString_lineEnd hd text other) ?_
  rintro rfl
  rw [hcomment]
  cases text with
  | nil => exact scanComment?_eq_none (by obtain rfl | rfl := hd <;> simp) _
  | cons e text =>
    refine scanComment?_eq_none ?_ _
    rintro ⟨-, rfl | rfl⟩
    · simp [scanComment?] at hcomment
    · rw [scanComment?] at hcomment
      split at hcomment <;> simp at hcomment

end LineEnd

/-- Is a piece that ends in front of the character the same whatever stands behind the character, or if nothing
does? -/
def Cuts (d : Char) : Prop :=
  ∀ {c : Char} {text behind : List Char}, (scan c (text ++ d :: behind)).more ≤ text.length →
    ∀ other, scan c (text ++ d :: other) = scan c text

theorem cuts_slash : Cuts '/' := scan_slash

theorem cuts_lineFeed : Cuts '\n' := by
  intro c text behind h other
  refine scan_stop (by decide) (fun _ => rfl) (fun _ => scanString_lineEnd (.inl rfl) text other) ?_
  rintro rfl
  have hmore : ∀ s ∈ scanComment? '/' (text ++ '\n' :: behind), s.more ≤ text.length := by
    intro s hs
    rwa [scan_of_comment hs] at h
  exact scanComment?_lineFeed hmore other

end BranchingStory.Token
