import BranchingStory.Proofs.Token.Rows
import BranchingStory.Proofs.Token.Scanning

/-! # Texts that are cut out

A piece that ends inside a text is the same whatever stands behind the text, and its token is the same wherever
the text stands. So pieces that follow one another in a source are the pieces of their own text. -/

namespace BranchingStory.Token
open Text
set_option autoImplicit false

/-! ## What stands behind -/

section Append
variable {c : Char} {text behind : List Char}

theorem takeWhile_of_append {p : Char → Bool} (h : ((text ++ behind).takeWhile p).length ≤ text.length) :
    text.takeWhile p = (text ++ behind).takeWhile p := by
  rw [List.takeWhile_append] at h ⊢
  split
  · next hall =>
    rw [if_pos hall, List.length_append] at h
    have hnone : behind.takeWhile p = [] := List.length_eq_zero_iff.mp (by omega)
    rw [hnone, List.append_nil]
    exact (List.takeWhile_prefix p).eq_of_length hall
  · rfl

theorem fractionOf_of_append
    (h : fractionOf (text ++ behind) = [] ∨ (fractionOf (text ++ behind)).length < text.length) :
    fractionOf text = fractionOf (text ++ behind) := by
  cases text with
  | nil => exact (h.resolve_right (by simp)).symm
  | cons d text =>
    by_cases hd : d = '.'
    · subst hd
      refine takeWhile_of_append ?_
      change (text ++ behind).takeWhile Char.isDigit = [] ∨
        ((text ++ behind).takeWhile Char.isDigit).length < text.length + 1 at h
      rcases h with hnil | hlt
      · rw [hnil]
        exact Nat.zero_le _
      · exact Nat.le_of_lt_succ hlt
    · rw [List.cons_append, fractionOf, fractionOf]
      · rintro _ ⟨⟩
        exact hd rfl
      · rintro _ ⟨⟩
        exact hd rfl

theorem scanNumber_of_append (h : (scanNumber c (text ++ behind)).more ≤ text.length) :
    scanNumber c text = scanNumber c (text ++ behind) := by
  rw [scanNumber] at h
  have hle : (if c = '0' then [] else (text ++ behind).takeWhile Char.isDigit).length ≤ text.length := by
    refine Nat.le_trans ?_ h
    dsimp only
    generalize (if c = '0' then [] else (text ++ behind).takeWhile Char.isDigit) = whole
    split <;> omega
  have hwhole : (if c = '0' then [] else text.takeWhile Char.isDigit) =
      if c = '0' then [] else (text ++ behind).takeWhile Char.isDigit := by
    split
    · rfl
    · next hc =>
      rw [if_neg hc] at hle
      exact takeWhile_of_append hle
  rw [scanNumber, scanNumber, hwhole]
  generalize (if c = '0' then [] else (text ++ behind).takeWhile Char.isDigit) = whole at h hle ⊢
  dsimp only at h ⊢
  rw [List.drop_append_of_le_length hle] at h ⊢
  have hfraction : fractionOf (text.drop whole.length) = fractionOf (text.drop whole.length ++ behind) := by
    refine fractionOf_of_append ?_
    rw [List.length_drop]
    split at h
    · next hnil => exact .inl hnil
    · exact .inr (by omega)
  rw [hfraction, List.take_append_of_le_length h]

theorem literalLength_of_append (h : literalLength (text ++ behind) ≤ text.length) :
    literalLength text = literalLength (text ++ behind) := by
  fun_induction literalLength text with
  | case1 => exact (Nat.le_zero.mp h).symm
  | case2 c hc =>
    cases behind with
    | nil => rw [List.append_nil, literalLength, if_pos hc]
    | cons d rest =>
      rw [List.singleton_append, literalLength] at h ⊢
      by_cases hend : c = '"' ∨ c = '\n' ∨ c = '\r'
      · rw [if_pos hend]
      · obtain rfl : c = '\\' := by
          rcases hc with hc | hc | hc
          · exact absurd (.inl hc) hend
          · exact hc
          · exact absurd (.inr hc) hend
        rw [if_neg hend, if_pos rfl] at h ⊢
        split
        · rfl
        · next hd =>
          rw [if_neg hd, List.length_singleton] at h
          omega
  | case3 c hc =>
    obtain ⟨hquote, hback, hend⟩ : c ≠ '"' ∧ c ≠ '\\' ∧ ¬(c = '\n' ∨ c = '\r') := by simpa using hc
    cases behind with
    | nil => rw [List.append_nil, literalLength, if_neg hc]
    | cons d rest =>
      rw [List.singleton_append, literalLength, if_neg (not_or.mpr ⟨hquote, hend⟩), if_neg hback] at h ⊢
      rw [List.length_singleton] at h
      omega
  | case4 c d rest hc => rw [List.cons_append, List.cons_append, literalLength, if_pos hc]
  | case5 d rest hd hc => rw [List.cons_append, List.cons_append, literalLength, if_neg hc, if_pos rfl, if_pos hd]
  | case6 d rest hd hc ih =>
    rw [List.cons_append, List.cons_append, literalLength, if_neg hc, if_pos rfl, if_neg hd] at h ⊢
    rw [ih (by simpa using h)]
  | case7 c d rest hc hback ih =>
    rw [List.cons_append, List.cons_append, literalLength, if_neg hc, if_neg hback] at h ⊢
    rw [ih (by simpa using h), List.cons_append]

theorem scanString_of_append (h : (scanString (text ++ behind)).more ≤ text.length) :
    scanString text = scanString (text ++ behind) := by
  have hinner : literalLength (text ++ behind) ≤ text.length := by
    refine Nat.le_trans ?_ h
    rw [scanString]
    split
    · exact Nat.le_succ _
    · exact Nat.le_refl _
  rw [scanString] at h
  rw [scanString, scanString, literalLength_of_append hinner, List.drop_append_of_le_length hinner,
    List.take_append_of_le_length hinner]
  rw [List.drop_append_of_le_length hinner] at h
  cases hrest : text.drop (literalLength (text ++ behind)) with
  | nil =>
    -- The text ends with the literal, so no quote behind it belongs to what was scanned.
    have hlength := List.drop_eq_nil_iff.mp hrest
    rw [hrest] at h
    split
    · next heq => exact absurd heq (by simp)
    · split
      · next rest heq =>
        rw [heq] at h
        have hmore : literalLength (text ++ behind) + 1 ≤ text.length := h
        omega
      · rfl
  | cons d rest =>
    rw [List.cons_append]
    by_cases hd : d = '"'
    · subst hd
      rfl
    · split
      · next heq => exact absurd (List.cons.inj heq).1 hd
      · split
        · next heq => exact absurd (List.cons.inj heq).1 hd
        · rfl

theorem scanComment?_of_append (h : ∀ s ∈ scanComment? c (text ++ behind), s.more ≤ text.length) :
    scanComment? c text = scanComment? c (text ++ behind) := by
  cases text with
  | nil =>
    -- A comment takes up more than its first character.
    have hnone : scanComment? c behind = none := by
      refine Option.eq_none_iff_forall_not_mem.mpr fun s hs => ?_
      have hle := h s hs
      rw [Option.mem_def, scanComment?.eq_def] at hs
      split at hs
      · obtain rfl := Option.some.inj hs
        dsimp only [List.length_nil] at hle
        omega
      · split at hs <;>
        · obtain rfl := Option.some.inj hs
          simp at hle
      · exact absurd hs (by simp)
    rw [List.nil_append, hnone]
    simp [scanComment?]
  | cons d text =>
    rw [List.cons_append] at h ⊢
    by_cases hopens : c = '/' ∧ (d = '/' ∨ d = '*')
    · obtain ⟨rfl, rfl | rfl⟩ := hopens
      · have hle := h _ rfl
        dsimp only [List.length_cons] at hle
        have hline : ((text ++ behind).takeWhile (· != '\n')).length ≤ text.length := by omega
        rw [scanComment?, scanComment?, takeWhile_of_append hline]
      · rw [scanComment?] at h
        rw [scanComment?, scanComment?]
        cases hwhole : commentLength? (text ++ behind) with
        | none =>
          -- An unclosed comment takes up the whole text, so nothing stands behind.
          rw [hwhole] at h
          have hle := h _ rfl
          simp only [List.length_cons, List.length_append] at hle
          obtain rfl : behind = [] := List.length_eq_zero_iff.mp (by omega)
          rw [List.append_nil] at hwhole ⊢
          rw [hwhole]
        | some n =>
          rw [hwhole] at h
          have hle := h _ rfl
          dsimp only [List.length_cons] at hle
          rw [commentLength?_of_append hwhole (by omega)]
    · rw [scanComment?_eq_none hopens, scanComment?_eq_none hopens]

theorem symbol?_equals (hc : c ≠ ':') (h : ∀ s ∈ symbol? c ['='], s.2 = 0) : symbol? c ['='] = symbol? c [] := by
  unfold symbol? at h ⊢
  split at h <;> simp_all

theorem symbol?_of_append (h : ∀ s ∈ symbol? c (text ++ behind), s.2 ≤ text.length) :
    symbol? c text = symbol? c (text ++ behind) := by
  by_cases hc : c = ':'
  · subst hc
    have hlonger : ∀ word : List Char, word <+: text → word <+: text ++ behind :=
      fun word hword => hword.trans (List.prefix_append _ _)
    have hshorter : ∀ word : List Char, word <+: text ++ behind → word.length ≤ text.length → word <+: text :=
      fun word hword hle => List.prefix_of_prefix_length_le hword (List.prefix_append _ _) hle
    rw [symbol?_colon] at h
    rw [symbol?_colon, symbol?_colon]
    by_cases hopen : [':', ':', 'm', 'e', 't', 'a'] <+: text ++ behind
    · rw [if_pos hopen] at h
      rw [if_pos hopen, if_pos (hshorter _ hopen (h _ rfl))]
    rw [if_neg hopen] at h
    rw [if_neg hopen, if_neg (mt (hlonger _) hopen)]
    by_cases hclose : [':', ':'] <+: text ++ behind
    · rw [if_pos hclose] at h
      rw [if_pos hclose, if_pos (hshorter _ hclose (h _ rfl))]
    · rw [if_neg hclose, if_neg (mt (hlonger _) hclose)]
  · cases text with
    | nil =>
      cases behind with
      | nil => rfl
      | cons d rest =>
        rw [List.nil_append, symbol?_cons hc] at h ⊢
        split
        · next hd =>
          rw [if_pos hd] at h
          exact (symbol?_equals hc fun s hs => Nat.le_zero.mp (h s hs)).symm
        · rfl
    | cons d text => rw [List.cons_append, symbol?_cons hc, symbol?_cons hc d (text ++ behind)]

/-- A piece that ends inside a text is the same whatever stands behind the text. -/
theorem scan_of_append (h : (scan c (text ++ behind)).more ≤ text.length) :
    scan c text = scan c (text ++ behind) := by
  by_cases hskip : isSkippable c = true
  · rw [scan, if_pos hskip] at h
    rw [scan, scan, if_pos hskip, if_pos hskip, takeWhile_of_append h]
  by_cases hline : c = '\n'
  · rw [scan, scan, if_neg hskip, if_pos hline, if_neg hskip, if_pos hline]
  by_cases hname : isNameStart c = true
  · simp only [scan, if_neg hskip, if_neg hline, if_pos hname] at h ⊢
    rw [takeWhile_of_append h]
  by_cases hdigit : c.isDigit = true
  · simp only [scan, if_neg hskip, if_neg hline, if_neg hname, if_pos hdigit] at h ⊢
    exact scanNumber_of_append h
  by_cases hquote : c = '"'
  · simp only [scan, if_neg hskip, if_neg hline, if_neg hname, if_neg hdigit, if_pos hquote] at h ⊢
    exact scanString_of_append h
  simp only [scan, if_neg hskip, if_neg hline, if_neg hname, if_neg hdigit, if_neg hquote] at h ⊢
  have hcomment : scanComment? c text = scanComment? c (text ++ behind) := by
    refine scanComment?_of_append fun s hs => ?_
    rw [Option.mem_def.mp hs] at h
    exact h
  rw [hcomment]
  cases hnone : scanComment? c (text ++ behind) with
  | some s => rfl
  | none =>
    rw [hnone] at h
    have hsymbol : symbol? c text = symbol? c (text ++ behind) := by
      refine symbol?_of_append fun s hs => ?_
      rw [Option.mem_def.mp hs] at h
      exact h
    rw [hsymbol]

end Append

/-! ## Pieces of a part -/

variable {offset : Nat} {text behind : List Char} {ps qs : List Piece}

/-- Behind some of the pieces of a text come the pieces of the rest. -/
theorem pieces_behind (h : pieces offset text = ps ++ qs) :
    pieces (offset + byteLength (Piece.textOf ps)) (Piece.textOf qs) = qs := by
  induction ps generalizing offset text with
  | nil =>
    have hwhole := textOf_pieces offset text
    rw [h, List.nil_append] at hwhole
    rw [hwhole]
    exact h
  | cons p ps ih =>
    cases text with
    | nil =>
      rw [pieces] at h
      exact absurd h (by simp)
    | cons c text =>
      rw [pieces, List.cons_append] at h
      obtain ⟨rfl, hrest⟩ := List.cons.inj h
      rw [Piece.textOf_cons, byteLength_append, ← Nat.add_assoc]
      exact ih hrest

/-- Pieces that take up a text are its pieces, whatever stands behind. -/
theorem pieces_of_append (h : pieces offset (text ++ behind) = ps ++ qs) (htext : Piece.textOf ps = text) :
    pieces offset text = ps := by
  by_cases hbehind : behind = []
  · subst hbehind
    rw [List.append_nil] at h
    have hwhole := textOf_pieces offset text
    rw [h, Piece.textOf_append, htext] at hwhole
    have hrest := pieces_behind h
    rw [List.append_right_eq_self.mp hwhole, pieces] at hrest
    rw [h, ← hrest, List.append_nil]
  induction ps generalizing offset text with
  | nil =>
    obtain rfl : [] = text := htext
    rw [pieces]
  | cons p ps ih =>
    rw [Piece.textOf_cons] at htext
    cases text with
    | nil =>
      obtain ⟨d, rest, rfl⟩ := List.exists_cons_of_ne_nil hbehind
      rw [List.nil_append, pieces, List.cons_append] at h
      obtain ⟨rfl, -⟩ := List.cons.inj h
      exact absurd htext (by simp)
    | cons c text =>
      rw [List.cons_append, pieces, List.cons_append] at h
      obtain ⟨rfl, hrest⟩ := List.cons.inj h
      have htaken : (text ++ behind).take (scan c (text ++ behind)).more ++ Piece.textOf ps = text :=
        (List.cons.inj htext).2
      have hmore : (scan c (text ++ behind)).more ≤ text.length := by
        have hlength := congrArg List.length htaken
        have hpos := List.length_pos_of_ne_nil hbehind
        simp only [List.length_append, List.length_take] at hlength
        omega
      rw [List.take_append_of_le_length hmore] at htaken hrest
      rw [List.drop_append_of_le_length hmore] at hrest
      rw [pieces, scan_of_append hmore, List.take_append_of_le_length hmore, ih hrest ?_]
      exact (List.append_cancel_left (htaken.trans (List.take_append_drop _ _).symm))

/-- Pieces that follow one another in a source are the pieces of the text that they take up there. -/
theorem exists_pieces_eq {s : Source} (h : ps <:+: pieces 0 s.text) :
    ∃ start, s.Holds start (Piece.textOf ps) ∧ pieces start (Piece.textOf ps) = ps := by
  obtain ⟨front, back, hsplit⟩ := h
  rw [List.append_assoc] at hsplit
  have hbehind := pieces_behind hsplit.symm
  rw [Nat.zero_add, Piece.textOf_append] at hbehind
  refine ⟨_, ⟨Piece.textOf front, Piece.textOf back, ?_, rfl⟩, pieces_of_append hbehind rfl⟩
  rw [← Piece.textOf_append, ← Piece.textOf_append, hsplit, textOf_pieces]

end BranchingStory.Token

/-! ## Texts that are moved -/

namespace BranchingStory
open Text Token

/-- The span so many bytes further on. -/
def Span.shift (distance : Nat) (s : Span) : Span := ⟨s.start + distance, s.stop + distance⟩

def Located.shift {α : Type} (distance : Nat) (x : Located α) : Located α := ⟨x.node, x.span.shift distance⟩

namespace Token

def Piece.shift (distance : Nat) (p : Piece) : Piece := { p with start := p.start + distance }

/-- A text is scanned alike wherever it stands, each piece as far behind its beginning as it was. -/
theorem pieces_shift (distance offset : Nat) (text : List Char) :
    pieces (offset + distance) text = (pieces offset text).map (·.shift distance) := by
  induction text using scan_induction generalizing offset with
  | nil => rw [pieces, pieces]; rfl
  | piece c rest ih =>
    rw [pieces, pieces, Nat.add_right_comm, ih]
    rfl

theorem Piece.lexeme?_shift (distance : Nat) (p : Piece) :
    (p.shift distance).lexeme? = p.lexeme?.map (·.shift distance) := by
  have hstop : (p.shift distance).stop = p.stop + distance := Nat.add_right_comm _ _ _
  rw [lexeme?, lexeme?, Option.map_map, hstop]
  rfl

theorem lexemes_shift (distance offset : Nat) (text : List Char) :
    lexemes (offset + distance) text = (lexemes offset text).map (·.shift distance) := by
  rw [← lexemesOf_pieces, ← lexemesOf_pieces, pieces_shift, Piece.lexemesOf, Piece.lexemesOf, List.filterMap_map,
    List.map_filterMap]
  exact List.filterMap_congr fun p _ => p.lexeme?_shift distance

theorem Piece.Tight.of_shift {distance : Nat} {ps : List Piece} (h : Tight (ps.map (·.shift distance))) :
    Tight ps := by
  obtain ⟨⟨p, t, hp, ht⟩, q, u, hq, hu⟩ := h
  rw [List.head?_map] at hp
  rw [List.getLast?_map] at hq
  obtain ⟨first, hfirst, rfl⟩ := Option.map_eq_some_iff.mp hp
  obtain ⟨last, hlast, rfl⟩ := Option.map_eq_some_iff.mp hq
  exact ⟨⟨first, t, hfirst, ht⟩, last, u, hlast, hu⟩

end Token

end BranchingStory
