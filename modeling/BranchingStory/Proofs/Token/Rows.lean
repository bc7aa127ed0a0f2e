import BranchingStory.Proofs.Expr.Grammar
import BranchingStory.Proofs.Token.Levels
import BranchingStory.Proofs.Token.Pieces

/-! # Rows of pieces

The pieces of a text, cut at its line feeds, are the lines of the text. Tokens that stand next to each other
in a source come from pieces that do, and so does their text; between them it holds what was passed over. -/

namespace BranchingStory.Token
open Text
set_option autoImplicit false

namespace Piece
variable {offset : Nat} {ps : List Piece} {p : Piece}

theorem lexemesOf_cons_of_none (h : p.token? = none) : lexemesOf (p :: ps) = lexemesOf ps :=
  List.filterMap_cons_none (by rw [lexeme?, h]; rfl)

theorem lexemesOf_cons_of_some {t : Token} (h : p.token? = some t) :
    lexemesOf (p :: ps) = ⟨t, ⟨p.start, p.stop⟩⟩ :: lexemesOf ps :=
  List.filterMap_cons_some (by rw [lexeme?, h]; rfl)

theorem lexemesOf_eq_nil_iff : lexemesOf ps = [] ↔ ∀ p ∈ ps, p.token? = none := by
  simp [lexemesOf, List.filterMap_eq_nil_iff, lexeme?]

theorem exists_of_lexemesOf_cons {t : Lexeme} {ts : List Lexeme} (h : lexemesOf ps = t :: ts) :
    ∃ front p behind, ps = front ++ p :: behind ∧ lexemesOf front = [] ∧ p.token? = some t.node ∧
      p.start = t.span.start ∧ lexemesOf behind = ts := by
  obtain ⟨front, p, behind, rfl, hfront, hp, hbehind⟩ := List.filterMap_eq_cons_iff.mp h
  obtain ⟨token, htoken, rfl⟩ := Option.map_eq_some_iff.mp hp
  exact ⟨front, p, behind, rfl, List.filterMap_eq_nil_iff.mpr hfront, htoken, rfl, hbehind⟩

/-! ## Lines -/

def isLineFeed (p : Piece) : Bool := p.token? == some (.layout .newline)

/-- The pieces of each line. -/
def rows (ps : List Piece) : List (List Piece) := ps.splitOnP isLineFeed

theorem rows_cons_lineFeed (h : p.isLineFeed = true) : rows (p :: ps) = [] :: rows ps := by
  rw [rows, List.splitOnP_cons_eq_if_modifyHead, if_pos h, rows]

theorem rows_cons (ps : List Piece) (h : p.isLineFeed = false) :
    ∃ row more, rows ps = row :: more ∧ rows (p :: ps) = (p :: row) :: more := by
  obtain ⟨row, more, hrows⟩ := List.exists_cons_of_ne_nil (List.splitOnP_ne_nil isLineFeed ps)
  refine ⟨row, more, hrows, ?_⟩
  rw [rows, List.splitOnP_cons_eq_if_modifyHead, if_neg (by simp [h]), hrows, List.modifyHead_cons]

theorem lexemesOf_rows (ps : List Piece) :
    (rows ps).map lexemesOf = (lexemesOf ps).splitOnP (·.node.isNewline) := by
  induction ps with
  | nil => rfl
  | cons p ps ih =>
    cases hp : p.token? with
    | none =>
      obtain ⟨row, more, hrows, hcons⟩ := rows_cons (p := p) ps (by simp [isLineFeed, hp])
      rw [hcons, List.map_cons, lexemesOf_cons_of_none hp, lexemesOf_cons_of_none hp, ← ih, hrows, List.map_cons]
    | some t =>
      rw [lexemesOf_cons_of_some hp, List.splitOnP_cons_eq_if_modifyHead, ← ih]
      cases ht : t.isNewline with
      | true =>
        rw [rows_cons_lineFeed (by simpa [isLineFeed, hp, isNewline] using ht)]
        rfl
      | false =>
        obtain ⟨row, more, hrows, hcons⟩ := rows_cons (p := p) ps
          (by simpa [isLineFeed, hp, isNewline] using ht)
        rw [hcons, List.map_cons, lexemesOf_cons_of_some hp, hrows]
        rfl

/-- Does a line end just with a piece that is a line feed? -/
def Unbroken (p : Piece) : Prop := (p.isLineFeed = true ∧ p.text = ['\n']) ∨ (p.isLineFeed = false ∧ '\n' ∉ p.text)

/-- What is known as a token stands on one line, unless it is the end of it. -/
theorem unbroken_of_apt {t : Token} (hapt : p.Apt) (hp : p.token? = some t)
    (ht : t = .layout .newline ∨ t.Known) : p.Unbroken := by
  rw [Apt, hp] at hapt
  obtain rfl | hknown := ht
  · exact .inl ⟨by rw [isLineFeed, hp]; rfl, hapt.2⟩
  · refine .inr ⟨?_, (hapt.solid hknown).unbroken⟩
    rw [isLineFeed, hp]
    exact isNewline_eq_false hknown.1

/-- Text in front changes nothing behind the first line of a text. -/
theorem splitOn_append {text line : List Char} {lines : List (List Char)}
    (h : text.splitOn '\n' = line.splitOn '\n' ++ lines) (front : List Char) :
    (front ++ text).splitOn '\n' = (front ++ line).splitOn '\n' ++ lines := by
  induction front with
  | nil => exact h
  | cons c front ih =>
    rw [List.cons_append, List.cons_append, List.splitOn_cons_eq_if_modifyHead, List.splitOn_cons_eq_if_modifyHead,
      ih]
    split
    · rfl
    · obtain ⟨first, others, hfirst⟩ := List.exists_cons_of_ne_nil (List.splitOn_ne_nil '\n' (front ++ line))
      rw [hfirst]
      rfl

/-- The lines of a text are those of its rows. A row has several if what is passed over in it goes over several. -/
theorem splitOn_textOf (h : ∀ p ∈ ps, p.isLineFeed = true → p.text = ['\n']) :
    (textOf ps).splitOn '\n' = (rows ps).flatMap fun row => (textOf row).splitOn '\n' := by
  induction ps with
  | nil => rfl
  | cons p ps ih =>
    obtain ⟨hp, hps⟩ := List.forall_mem_cons.mp h
    have hlines := ih hps
    rw [textOf_cons]
    cases hline : p.isLineFeed with
    | true =>
      rw [hp hline, List.singleton_append, List.splitOn_cons_eq_if_modifyHead, if_pos (by simp), hlines,
        rows_cons_lineFeed hline]
      rfl
    | false =>
      obtain ⟨row, more, hrows, hcons⟩ := rows_cons ps hline
      rw [hrows, List.flatMap_cons] at hlines
      rw [hcons, List.flatMap_cons, textOf_cons]
      exact splitOn_append hlines p.text

theorem exists_splitOn (text : List Char) :
    ∃ first others, text.splitOn '\n' = first :: others ∧ (∃ more, text = first ++ more) ∧
      ∀ line ∈ others, ∃ front more, text = front ++ '\n' :: (line ++ more) := by
  induction text with
  | nil => exact ⟨[], [], rfl, ⟨[], rfl⟩, by simp⟩
  | cons c text ih =>
    obtain ⟨first, others, hlines, ⟨more, hfirst⟩, hothers⟩ := ih
    have hbehind : ∀ line ∈ others, ∃ front more, c :: text = front ++ '\n' :: (line ++ more) := by
      intro line hline
      obtain ⟨front, more, hfront⟩ := hothers line hline
      exact ⟨c :: front, more, congrArg _ hfront⟩
    rw [List.splitOn_cons_eq_if_modifyHead, hlines]
    split
    · next hc =>
      obtain rfl := beq_iff_eq.mp hc
      refine ⟨[], first :: others, rfl, ⟨_, rfl⟩, List.forall_mem_cons.mpr ⟨⟨[], more, ?_⟩, hbehind⟩⟩
      rw [← hfirst, List.nil_append]
    · exact ⟨c :: first, others, rfl, ⟨more, congrArg _ hfirst⟩, hbehind⟩

theorem exists_lineFeed {front behind : List Char} (h : textOf ps = front ++ '\n' :: behind) :
    ∃ p ∈ ps, ∃ before inner rest, p.text = before ++ '\n' :: inner ∧ behind = inner ++ rest := by
  induction ps generalizing front with
  | nil => simp [textOf] at h
  | cons p ps ih =>
    rw [textOf_cons] at h
    obtain ⟨between, -, hrest⟩ | ⟨between, hp, hrest⟩ := List.append_eq_append_iff.mp h
    · obtain ⟨q, hq, hsplit⟩ := ih hrest
      exact ⟨q, List.mem_cons_of_mem p hq, hsplit⟩
    · cases between with
      | nil =>
        obtain ⟨q, hq, hsplit⟩ := @ih [] hrest.symm
        exact ⟨q, List.mem_cons_of_mem p hq, hsplit⟩
      | cons c inner =>
        obtain ⟨rfl, hbehind⟩ := List.cons.inj hrest
        exact ⟨p, List.mem_cons_self, front, inner, textOf ps, hp, hbehind⟩

/-- A line of a text is the beginning of it, or stands behind a line feed in one of its pieces. -/
theorem line_cases {line : List Char} (h : line ∈ (textOf ps).splitOn '\n') :
    (∃ more, textOf ps = line ++ more) ∨
      ∃ p ∈ ps, ∃ before inner rest more, p.text = before ++ '\n' :: inner ∧ line ++ more = inner ++ rest := by
  obtain ⟨first, others, hlines, hfirst, hothers⟩ := exists_splitOn (textOf ps)
  rw [hlines] at h
  obtain rfl | hline := List.mem_cons.mp h
  · exact .inl hfirst
  · obtain ⟨front, more, hfront⟩ := hothers line hline
    obtain ⟨p, hp, before, inner, rest, htext, hbehind⟩ := exists_lineFeed hfront
    exact .inr ⟨p, hp, before, inner, rest, more, htext, hbehind⟩

theorem within_of_mem_rows {row : List Piece} (h : row ∈ rows ps) : row <:+: ps := by
  have hall : (∀ row ∈ rows ps, row <:+: ps) ∧ ∀ row ∈ (rows ps).head?, row <+: ps := by
    clear h
    induction ps with
    | nil => simp [rows]
    | cons p ps ih =>
      obtain ⟨hmem, hhead⟩ := ih
      have hmore : ∀ row ∈ rows ps, row <:+: p :: ps := fun row hrow => List.infix_cons (hmem row hrow)
      cases hp : p.isLineFeed with
      | true =>
        rw [rows_cons_lineFeed hp]
        exact ⟨List.forall_mem_cons.mpr ⟨List.nil_infix, hmore⟩, by simp⟩
      | false =>
        obtain ⟨row, more, hrows, hcons⟩ := rows_cons ps hp
        rw [hrows] at hmore hhead
        have hfirst : p :: row <+: p :: ps := List.cons_prefix_cons.mpr ⟨rfl, hhead row rfl⟩
        rw [hcons]
        exact ⟨List.forall_mem_cons.mpr ⟨hfirst.isInfix, (List.forall_mem_cons.mp hmore).2⟩, by simpa using hfirst⟩
  exact hall.1 row h

/-! ## Tokens next to each other -/

/-- Do the pieces begin and end with a token? -/
structure Tight (ps : List Piece) : Prop where
  first : ∃ p t, ps.head? = some p ∧ p.token? = some t
  last : ∃ p t, ps.getLast? = some p ∧ p.token? = some t

/-- Pieces with a token among them are tight, apart from what is passed over in front and behind. -/
theorem exists_core (h : lexemesOf ps ≠ []) :
    ∃ front mid back, ps = front ++ (mid ++ back) ∧ lexemesOf front = [] ∧ lexemesOf back = [] ∧ Tight mid := by
  induction ps with
  | nil => exact absurd rfl h
  | cons p ps ih =>
    by_cases hps : lexemesOf ps = []
    · cases hp : p.token? with
      | none => exact absurd ((lexemesOf_cons_of_none hp).trans hps) h
      | some t => exact ⟨[], [p], ps, rfl, rfl, hps, ⟨p, t, rfl, hp⟩, ⟨p, t, rfl, hp⟩⟩
    · obtain ⟨front, mid, back, rfl, hfront, hback, hmid⟩ := ih hps
      cases hp : p.token? with
      | none => exact ⟨p :: front, mid, back, rfl, (lexemesOf_cons_of_none hp).trans hfront, hback, hmid⟩
      | some t =>
        obtain ⟨q, u, hq, hu⟩ := hmid.last
        refine ⟨[], p :: (front ++ mid), back, by simp, rfl, hback, ⟨p, t, rfl, hp⟩, ⟨q, u, ?_, hu⟩⟩
        rw [← List.cons_append, List.getLast?_append, hq]
        rfl

/-- Tokens that follow one another are those of the pieces from the first of them to the last. -/
theorem exists_tight {us ts vs : List Lexeme} (h : lexemesOf ps = us ++ (ts ++ vs)) (hne : ts ≠ []) :
    ∃ front mid back, ps = front ++ (mid ++ back) ∧ lexemesOf front = us ∧ lexemesOf mid = ts ∧
      lexemesOf back = vs ∧ Tight mid := by
  obtain ⟨before, rest, rfl, hbefore, hrest⟩ := List.filterMap_eq_append_iff.mp h
  obtain ⟨inner, behind, rfl, hinner, hbehind⟩ := List.filterMap_eq_append_iff.mp hrest
  have hsome : lexemesOf inner ≠ [] := by rwa [lexemesOf, hinner]
  obtain ⟨front, mid, back, rfl, hfront, hback, hmid⟩ := exists_core hsome
  refine ⟨before ++ front, mid, back ++ behind, by simp, ?_, ?_, ?_, hmid⟩
  · rw [lexemesOf_append, hfront, List.append_nil]
    exact hbefore
  · have hsplit : lexemesOf (front ++ (mid ++ back)) = ts := hinner
    rwa [lexemesOf_append, lexemesOf_append, hfront, hback, List.nil_append, List.append_nil] at hsplit
  · rw [lexemesOf_append, hback, List.nil_append]
    exact hbehind

theorem Tight.spanOf_eq (h : Tight ps) (hplaced : Placed offset ps) :
    spanOf (lexemesOf ps) = ⟨offset, offset + byteLength (textOf ps)⟩ := by
  obtain ⟨⟨p, t, hhead, hp⟩, q, u, hlast, hq⟩ := h
  obtain ⟨rest, rfl⟩ := List.head?_eq_some_iff.mp hhead
  obtain ⟨init, hinit⟩ := List.getLast?_eq_some_iff.mp hlast
  have hstart : p.start = offset := hplaced.1
  have hstop : q.stop = offset + byteLength (textOf (p :: rest)) := by
    rw [hinit] at hplaced ⊢
    have hbegin : q.start = offset + byteLength (textOf init) := (placed_append.mp hplaced).2.1
    rw [stop, hbegin, textOf_append, byteLength_append, textOf_cons]
    simp [textOf, Nat.add_assoc]
  have hfinal : (lexemesOf (p :: rest)).getLast? = some ⟨u, ⟨q.start, q.stop⟩⟩ := by
    rw [hinit, lexemesOf_append, lexemesOf_cons_of_some hq]
    exact List.getLast?_concat
  rw [spanOf, hfinal, lexemesOf_cons_of_some hp, ← hstop]
  exact congrArg (Span.mk · q.stop) hstart

/-! ## Pieces of a source -/

section Source
variable {s : Source}

/-- Pieces that follow one another in a source stand there with their text. -/
theorem exists_holds (h : ps <:+: pieces 0 s.text) : ∃ offset, Placed offset ps ∧ s.Holds offset (textOf ps) := by
  obtain ⟨before, behind, hsplit⟩ := h
  rw [List.append_assoc] at hsplit
  have hplaced := placed_pieces 0 s.text
  rw [← hsplit] at hplaced
  refine ⟨_, (placed_append.mp (placed_append.mp hplaced).2).1, textOf before, textOf behind, ?_,
    (Nat.zero_add _).symm⟩
  rw [← textOf_append, ← textOf_append, hsplit, textOf_pieces]

theorem apt_of_within (h : ps <:+: pieces 0 s.text) : ∀ p ∈ ps, p.Apt :=
  fun p hp => apt_pieces 0 s.text p (h.subset hp)

/-- Does the piece reach the line? -/
def OnLine (s : Source) (line : Nat) (p : Piece) : Prop :=
  (s.index.position p.start).line ≤ line ∧ line ≤ (s.index.position p.stop).line

instance (line : Nat) : Decidable (p.OnLine s line) := inferInstanceAs (Decidable (_ ∧ _))

variable {line : Nat}

/-- From a place on a line on, pieces stand on it if none that reaches it goes over several. -/
theorem onLine_behind (hplaced : Placed offset ps) (hholds : s.Holds offset (textOf ps))
    (hline : (s.index.position offset).line = line) (hbreak : ∀ p ∈ ps, p.OnLine s line → '\n' ∉ p.text) :
    ∀ p ∈ ps, p.OnLine s line := by
  induction ps generalizing offset with
  | nil => simp
  | cons p ps ih =>
    obtain ⟨rfl, hrest⟩ := hplaced
    obtain ⟨hp, hps⟩ := List.forall_mem_cons.mp hbreak
    rw [textOf_cons] at hholds
    have hon : p.OnLine s line := ⟨Nat.le_of_eq hline, hline ▸ Source.line_mono (Nat.le_add_right _ _)⟩
    have hstop : (s.index.position p.stop).line = line := by
      rw [← hline]
      exact hholds.front.line_eq (hp hon) ⟨Nat.le_add_right _ _, Nat.le_refl _⟩ ⟨Nat.le_refl _, Nat.le_add_right _ _⟩
    exact List.forall_mem_cons.mpr ⟨hon, ih hrest hholds.rest hstop hps⟩

/-- In front of a place on a line, pieces stand on it if none that reaches it goes over several. -/
theorem onLine_front (hplaced : Placed offset ps) (hholds : s.Holds offset (textOf ps))
    (hline : (s.index.position (offset + byteLength (textOf ps))).line = line)
    (hbreak : ∀ p ∈ ps, p.OnLine s line → '\n' ∉ p.text) :
    (s.index.position offset).line = line ∧ ∀ p ∈ ps, p.OnLine s line := by
  induction ps generalizing offset with
  | nil => exact ⟨hline, by simp⟩
  | cons p ps ih =>
    obtain ⟨rfl, hrest⟩ := hplaced
    obtain ⟨hp, hps⟩ := List.forall_mem_cons.mp hbreak
    rw [textOf_cons] at hholds
    rw [textOf_cons, byteLength_append, ← Nat.add_assoc] at hline
    obtain ⟨hstop, hbehind⟩ := ih hrest hholds.rest hline hps
    have hon : p.OnLine s line := ⟨hstop ▸ Source.line_mono (Nat.le_add_right _ _), Nat.le_of_eq hstop.symm⟩
    refine ⟨?_, List.forall_mem_cons.mpr ⟨hon, hbehind⟩⟩
    rw [← hstop]
    exact hholds.front.line_eq (hp hon) ⟨Nat.le_refl _, Nat.le_add_right _ _⟩ ⟨Nat.le_add_right _ _, Nat.le_refl _⟩

/-- Text that begins and ends with a known token begins and ends with no blank. -/
theorem Tight.trimmed (h : Tight ps) (hapt : ∀ p ∈ ps, p.Apt)
    (hfirst : ∀ t ∈ (lexemesOf ps).head?, t.node.Known) (hlast : ∀ t ∈ (lexemesOf ps).getLast?, t.node.Known) :
    Trimmed (textOf ps) := by
  obtain ⟨⟨p, t, hhead, hp⟩, q, u, hend, hq⟩ := h
  have hsolid : ∀ {p : Piece} {t : Token}, p ∈ ps → p.token? = some t → t.Known → Solid p.text := by
    intro p t hmem hp ht
    have hwritten := hapt p hmem
    rw [Apt, hp] at hwritten
    exact hwritten.solid ht
  obtain ⟨rest, hrest⟩ := List.head?_eq_some_iff.mp hhead
  obtain ⟨init, hinit⟩ := List.getLast?_eq_some_iff.mp hend
  have hbegin := hsolid (List.mem_of_head? hhead) hp (hfirst _ (by
    rw [hrest, lexemesOf_cons_of_some hp]
    rfl))
  have hfinal := hsolid (List.mem_of_getLast? hend) hq (hlast _ (by
    rw [hinit, lexemesOf_append, lexemesOf_cons_of_some hq]
    exact List.getLast?_concat))
  refine ⟨?_, ?_, ?_⟩
  · rw [hrest, textOf_cons]
    exact List.append_ne_nil_of_left_ne_nil hbegin.ne_nil _
  · rw [hrest, textOf_cons, List.head?_append_of_ne_nil _ hbegin.ne_nil]
    exact hbegin.first
  · rw [hinit, textOf_append, textOf_cons, show textOf [] = [] from rfl, List.append_nil,
      List.getLast?_append_of_ne_nil _ hfinal.ne_nil]
    exact hfinal.last

end Source

end Piece

/-! ## Before the layout pass -/

/-- The token as it was scanned, unless the layout pass has put it in. -/
def scanned? (t : Lexeme) : Option Lexeme :=
  match t.node with
  | .layout .newline => some t
  | .layout .blankLine => some (mark .newline t.span)
  | .layout _ => none
  | _ => some t

def scanned (ts : List Lexeme) : List Lexeme := ts.filterMap scanned?

theorem scanned_append (ts us : List Lexeme) : scanned (ts ++ us) = scanned ts ++ scanned us := List.filterMap_append

theorem scanned?_of_proper {t : Lexeme} (h : t.node.isLayout = false) : scanned? t = some t := by
  obtain ⟨node, span⟩ := t
  cases node with
  | layout m => exact absurd h (by simp [isLayout])
  | _ => rfl

theorem scanned_of_proper {ts : List Lexeme} (h : ∀ t ∈ ts, t.node.isLayout = false) : scanned ts = ts := by
  induction ts with
  | nil => rfl
  | cons t ts ih =>
    obtain ⟨ht, hts⟩ := List.forall_mem_cons.mp h
    rw [scanned, List.filterMap_cons_some (scanned?_of_proper ht)]
    exact congrArg _ (ih hts)

theorem scanned_line {words rest : List Lexeme} {stop : Span} (h : ∀ t ∈ words, t.node.isLayout = false) :
    scanned (words ++ mark .newline stop :: rest) = words ++ mark .newline stop :: scanned rest := by
  rw [scanned_append, scanned_of_proper h]
  rfl

/-- The marks with which a line is entered were not scanned. -/
theorem scanned_enterLine (levels : List Nat) (width start first : Nat) :
    scanned (enterLine levels width start first).1 = [] := by
  refine List.filterMap_eq_nil_iff.mpr fun t ht => ?_
  obtain ⟨m, span, rfl, hnewline, hblank⟩ := mem_enterLine ht
  cases m with
  | newline => exact absurd rfl hnewline
  | blankLine => exact absurd rfl hblank
  | _ => rfl

theorem scanned_layOut (index : LineIndex) (tab : Nat) (levels : List Nat) {lines : List TokenLine}
    (h : ∀ line ∈ lines, ∀ t ∈ line.content, t.node.isLayout = false) :
    scanned (layOut index tab levels lines) =
      lines.flatMap fun line => line.content ++ [mark .newline line.newline] := by
  induction lines generalizing levels with
  | nil =>
    rw [layOut, List.flatMap_nil]
    refine List.filterMap_eq_nil_iff.mpr fun t ht => ?_
    obtain ⟨level, -, rfl⟩ := List.mem_map.mp ht
    rfl
  | cons line lines ih =>
    obtain ⟨hline, hlines⟩ := List.forall_mem_cons.mp h
    rw [layOut, List.flatMap_cons]
    split
    · next hnone =>
      rw [hnone]
      exact congrArg (mark .newline line.newline :: ·) (ih levels hlines)
    · dsimp only
      rw [List.append_assoc, scanned_append, scanned_enterLine, List.nil_append, scanned_line hline, ih _ hlines,
        List.append_assoc]
      rfl

theorem flatMap_splitLines (eof : Nat) (ts : List Lexeme) :
    ∃ ends, ((splitLines eof ts).flatMap fun line => line.content ++ [mark .newline line.newline]) = ts ++ ends ∧
      ∀ t ∈ ends, t.node.isLayout = true := by
  induction ts with
  | nil => exact ⟨[], rfl, by simp⟩
  | cons t ts ih =>
    obtain ⟨ends, hts, hends⟩ := ih
    rw [splitLines]
    split
    · next hnewline =>
      obtain ⟨node, span⟩ := t
      obtain rfl : node = .layout .newline := by simpa [isNewline] using hnewline
      refine ⟨ends, ?_, hends⟩
      rw [List.flatMap_cons, hts]
      rfl
    · split
      · next hnone =>
        rw [hnone] at hts
        obtain ⟨rfl, -⟩ := List.append_eq_nil_iff.mp hts.symm
        exact ⟨[mark .newline ⟨eof, eof⟩], rfl, by simp [mark, isLayout]⟩
      · next line lines hlines =>
        rw [hlines] at hts
        exact ⟨ends, congrArg (t :: ·) hts, hends⟩

/-- Without the marks that it puts in, the layout pass leaves what was scanned; it ends the last line also where
no line feed does. -/
theorem scanned_tokens (s : Source) (tabWidth : Nat) :
    ∃ ends, scanned (tokens s tabWidth) = lexemes 0 s.text ++ ends ∧ ∀ t ∈ ends, t.node.isLayout = true := by
  obtain ⟨ends, hsplit, hends⟩ := flatMap_splitLines s.length (lexemes 0 s.text)
  refine ⟨ends, ?_, hends⟩
  have hlines := (linesChained_splitLines (chained_lexemes [] s.text)).proper
  rw [tokens, scanned_layOut _ _ _ (s.length_eq ▸ hlines), hsplit]

/-! ## The rows of a block -/

/-- Line feeds at the end only add empty lines. -/
theorem splitOnP_append_newlines (us : List Lexeme) {ends : List Lexeme} (h : ∀ t ∈ ends, t.node.isNewline = true) :
    ∃ blanks, (us ++ ends).splitOnP (·.node.isNewline) = us.splitOnP (·.node.isNewline) ++ blanks ∧
      ∀ b ∈ blanks, b = [] := by
  induction ends generalizing us with
  | nil => exact ⟨[], by simp⟩
  | cons t ends ih =>
    obtain ⟨ht, hends⟩ := List.forall_mem_cons.mp h
    obtain ⟨blanks, hsplit, hblanks⟩ := ih [] hends
    refine ⟨[] :: blanks, ?_, List.forall_mem_cons.mpr ⟨rfl, hblanks⟩⟩
    rw [List.splitOnP_append_cons (p := fun u : Lexeme => u.node.isNewline) _ _ ht, ← List.nil_append ends, hsplit]
    rfl

theorem exists_last_proper {ts : List Lexeme} (h : proper ts ≠ []) :
    ∃ us t ends, ts = us ++ t :: ends ∧ t.node.isLayout = false ∧ ∀ u ∈ ends, u.node.isLayout = true := by
  induction ts with
  | nil => exact absurd rfl h
  | cons t ts ih =>
    by_cases hts : proper ts = []
    · have hends : ∀ u ∈ ts, u.node.isLayout = true := by simpa [proper] using hts
      refine ⟨[], t, ts, rfl, Bool.eq_false_iff.mpr fun ht => h ?_, hends⟩
      exact proper_of_marks (List.forall_mem_cons.mpr ⟨ht, hends⟩)
    · obtain ⟨us, u, ends, rfl, hu, hends⟩ := ih hts
      exact ⟨t :: us, u, ends, rfl, hu, hends⟩

theorem exists_eq_append {us vs xs ys : List Lexeme} {t : Lexeme} (h : us ++ [t] ++ vs = xs ++ ys) (ht : t ∉ ys) :
    ∃ more, xs = us ++ [t] ++ more := by
  obtain ⟨more, hmore, -⟩ | ⟨more, hmore, rfl⟩ := List.append_eq_append_iff.mp h
  · exact ⟨more, hmore⟩
  · obtain rfl | ⟨more, u, rfl⟩ := List.eq_nil_or_concat more
    · exact ⟨[], by rw [hmore]; simp⟩
    · rw [List.concat_eq_append, ← List.append_assoc] at hmore
      obtain ⟨-, hu⟩ := List.append_inj' hmore rfl
      obtain rfl := List.singleton_inj.mp hu
      exact absurd (by simp) ht

theorem mem_scanned {ts : List Lexeme} {t : Lexeme} (h : t ∈ scanned ts) :
    t.node = .layout .newline ∨ t.node.isLayout = false ∧ t ∈ ts := by
  obtain ⟨⟨node, span⟩, hmem, hscanned⟩ := List.mem_filterMap.mp h
  cases node with
  | layout m => cases m <;> simp [scanned?, mark] at hscanned <;> exact .inl (by rw [← hscanned])
  | _ =>
    obtain rfl := Option.some.inj hscanned
    exact .inr ⟨rfl, hmem⟩

/-- Tokens that follow one another in a source, up to the last of them that is no mark, are those of pieces
that do. -/
theorem exists_pieces {s : Source} {tabWidth : Nat} {before ts behind : List Lexeme}
    (h : tokens s tabWidth = before ++ (ts ++ behind)) (hne : proper ts ≠ []) :
    ∃ (ps : List Piece) (ends : List Lexeme), ps <:+: pieces 0 s.text ∧ Piece.Tight ps ∧
      scanned ts = Piece.lexemesOf ps ++ ends ∧ (∀ t ∈ ends, t.node.isNewline = true) ∧
      (Piece.lexemesOf ps).head? = (scanned ts).head? ∧ (Piece.lexemesOf ps).getLast? = (proper ts).getLast? := by
  obtain ⟨us, t, ends, rfl, ht, hends⟩ := exists_last_proper hne
  obtain ⟨finish, hscanned, hfinish⟩ := scanned_tokens s tabWidth
  have hcore : scanned (us ++ [t]) = scanned us ++ [t] := by
    rw [scanned_append, scanned_of_proper (List.forall_mem_singleton.mpr ht)]
  have hsplit : scanned (us ++ t :: ends) = (scanned us ++ [t]) ++ scanned ends := by
    rw [← hcore, ← scanned_append, List.append_assoc]
    rfl
  have hwhole : (scanned before ++ scanned us) ++ [t] ++ (scanned ends ++ scanned behind) =
      lexemes 0 s.text ++ finish := by
    rw [← hscanned, h, scanned_append, scanned_append, hsplit]
    simp
  -- The last token is no mark, so it is none of those that the layout pass adds at the end.
  obtain ⟨more, hmore⟩ := exists_eq_append hwhole fun hmem => absurd (hfinish t hmem) (by simp [ht])
  rw [← lexemesOf_pieces, List.append_assoc, List.append_assoc, ← List.append_assoc (scanned us)] at hmore
  obtain ⟨front, ps, back, hps, -, hlex, -, htight⟩ := Piece.exists_tight hmore (by simp)
  have hproper : proper (t :: ends) = [t] := by
    rw [proper, List.filter_cons_of_pos (by simp [ht])]
    exact congrArg _ (proper_of_marks hends)
  refine ⟨ps, scanned ends, ⟨front, back, by rw [hps, List.append_assoc]⟩, htight, hlex ▸ hsplit,
    fun u hu => ?_, ?_, ?_⟩
  · obtain hnewline | ⟨hproper, hmem⟩ := mem_scanned hu
    · rw [hnewline]
      rfl
    · exact absurd (hends u hmem) (by simp [hproper])
  · rw [hsplit, hlex, List.head?_append, List.head?_append, List.head?_append]
    cases (scanned us).head? <;> rfl
  · rw [hlex, proper_append, hproper, List.getLast?_concat, List.getLast?_concat]

end BranchingStory.Token
