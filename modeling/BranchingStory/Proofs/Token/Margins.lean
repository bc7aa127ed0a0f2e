import BranchingStory.Proofs.Source.Excerpts
import BranchingStory.Proofs.Token.Levels
import BranchingStory.Proofs.Token.Scanning

/-! # Margins

The margin of a token is the width of the white space at the front of its line. The layout pass looks at no other
text of a source: it goes by the scanned tokens and the margins of those that stand first on a line. So sources
with the same scanned tokens and the same line widths have the same tokens. -/

namespace BranchingStory.Token
open Text
set_option autoImplicit false

/-! ## The last line of a text -/

/-- What stands behind the last line feed. -/
def lastLine : List Char → List Char
  | [] => []
  | c :: rest => if '\n' ∈ rest then lastLine rest else if c = '\n' then rest else c :: rest

theorem lastLine_append_of_mem {text : List Char} (h : '\n' ∈ text) (front : List Char) :
    lastLine (front ++ text) = lastLine text := by
  induction front with
  | nil => rfl
  | cons c front ih => rw [List.cons_append, lastLine, if_pos (List.mem_append_right _ h), ih]

theorem lastLine_of_not_mem {text : List Char} (h : '\n' ∉ text) : lastLine text = text := by
  cases text with
  | nil => rfl
  | cons c rest =>
    obtain ⟨hc, hrest⟩ := not_or.mp (mt List.mem_cons.mpr h)
    rw [lastLine, if_neg hrest, if_neg (Ne.symm hc)]

theorem lastLine_append_of_not_mem {text : List Char} (h : '\n' ∉ text) (front : List Char) :
    lastLine (front ++ text) = lastLine front ++ text := by
  induction front with
  | nil => exact lastLine_of_not_mem h
  | cons c front ih =>
    have hmem : '\n' ∈ front ++ text ↔ '\n' ∈ front := by simp [h]
    rw [List.cons_append, lastLine, lastLine, ih]
    simp only [hmem]
    split
    · rfl
    · split <;> rfl

theorem exists_lastLine (text : List Char) : ∃ front,
    text = front ++ lastLine text ∧ '\n' ∉ lastLine text ∧ (front = [] ∨ ∃ init, front = init ++ ['\n']) := by
  induction text with
  | nil => exact ⟨[], rfl, List.not_mem_nil, .inl rfl⟩
  | cons c rest ih =>
    obtain ⟨front, hsplit, hbreak, hfront⟩ := ih
    rw [lastLine]
    split
    · next hmem =>
      refine ⟨c :: front, congrArg _ hsplit, hbreak, .inr ?_⟩
      obtain rfl | ⟨init, rfl⟩ := hfront
      · rw [List.nil_append] at hsplit
        exact absurd (hsplit ▸ hmem) hbreak
      · exact ⟨c :: init, rfl⟩
    · next hmem =>
      split
      · next hc =>
        exact ⟨[c], rfl, hmem, .inr ⟨[], by rw [hc]; rfl⟩⟩
      · next hc => exact ⟨[], rfl, by simpa [hmem] using Ne.symm hc, .inl rfl⟩

/-- The line of an offset begins behind the last line feed in front of it. -/
theorem lineAt_eq (before behind : List Char) :
    (LineIndex.ofSource (before ++ behind)).lineAt (byteLength before) =
      ⟨byteLength before - byteLength (lastLine before), lastLine before ++ behind⟩ := by
  obtain ⟨front, hsplit, hbreak, hfront⟩ := exists_lastLine before
  have hlength : byteLength before = byteLength front + byteLength (lastLine before) := by
    rw [← byteLength_append, ← hsplit]
  have htext : before ++ behind = front ++ (lastLine before ++ behind) := by rw [← List.append_assoc, ← hsplit]
  have hline : ⟨byteLength front, lastLine before ++ behind⟩ ∈ (LineIndex.ofSource (before ++ behind)).lines := by
    refine LineIndex.mem_lines.mpr ?_
    obtain rfl | ⟨init, rfl⟩ := hfront
    · exact .inl (by rw [htext]; rfl)
    · exact .inr ⟨init, lastLine before ++ behind, by rw [htext]; simp, by rw [byteLength_append]; rfl⟩
  have hholds : Source.Holds { text := before ++ behind } (byteLength front) (lastLine before) :=
    ⟨front, behind, htext, rfl⟩
  have hmem := LineIndex.lineAt_mem (before ++ behind) (byteLength before)
  have hle := LineIndex.lineAt_start_le (before ++ behind) (byteLength before)
  have hge := LineIndex.start_le_lineAt_start (before ++ behind) (byteLength before) hline (by simp only; omega)
  have houtside := hholds.line_outside hbreak hmem
  rw [LineIndex.line_eq_of_start hmem hline (by simp only at hge ⊢; omega)]
  exact congrArg (Line.mk · _) (by omega)

theorem byteLength_lastLine_le (before : List Char) : byteLength (lastLine before) ≤ byteLength before := by
  obtain ⟨front, hsplit, -⟩ := exists_lastLine before
  rw [hsplit, byteLength_append, ← hsplit]
  exact Nat.le_add_left _ _

/-! ## The margin -/

/-- The width of the white space at the front of the last line. -/
def margin (tab : Nat) (before : List Char) : Nat := indentWidth tab 0 (lastLine before)

theorem indentWidth_stop {c : Char} (hc : isSkippable c = false) (tab width : Nat) (line rest : List Char) :
    indentWidth tab width (line ++ c :: rest) = indentWidth tab width line := by
  induction line generalizing width with
  | nil =>
    simp only [isSkippable, Bool.or_eq_false_iff, beq_eq_false_iff_ne] at hc
    simp [indentWidth, hc]
  | cons d line ih => rw [List.cons_append, indentWidth, indentWidth, ih, ih, ih]

theorem indentWidth_lineAt {c : Char} (hc : isSkippable c = false) (tab : Nat) (before rest : List Char) :
    indentWidth tab 0 ((LineIndex.ofSource (before ++ c :: rest)).lineAt (byteLength before)).text =
      margin tab before := by
  rw [lineAt_eq, indentWidth_stop hc, margin]

/-! ## Line widths -/

/-- The widths of the lines that the tokens stand on, a line without tokens having none; if the first line has begun
it is left out. -/
def widths (width : Lexeme → Nat) (begun : Bool) : List Lexeme → List Nat
  | [] => []
  | t :: rest =>
    (if begun then [] else [if t.node.isNewline then 0 else width t]) ++ widths width (!t.node.isNewline) rest

theorem widths_splitLines (index : LineIndex) (tab eof : Nat) (ts : List Lexeme) :
    (splitLines eof ts).map (·.width index tab) =
        widths (fun t => indentWidth tab 0 (index.lineAt t.span.start).text) false ts ∧
      ((splitLines eof ts).map (·.width index tab)).tail =
        widths (fun t => indentWidth tab 0 (index.lineAt t.span.start).text) true ts := by
  induction ts with
  | nil => exact ⟨rfl, rfl⟩
  | cons t rest ih =>
    obtain ⟨hfirst, hmore⟩ := ih
    rw [splitLines, widths, widths]
    split
    · next hnewline =>
      rw [List.map_cons, hfirst, hnewline]
      exact ⟨rfl, rfl⟩
    · next hnewline =>
      rw [Bool.eq_false_iff.mpr hnewline, Bool.not_false, ← hmore]
      split
      · next hnone =>
        rw [hnone]
        exact ⟨rfl, rfl⟩
      · next line lines hlines =>
        rw [hlines]
        exact ⟨rfl, rfl⟩

/-- Does a line stand open behind the tokens, if one does or does not in front of them? -/
def begunBehind (begun : Bool) (ts : List Lexeme) : Bool := (ts.getLast?.map (!·.node.isNewline)).getD begun

theorem begunBehind_cons (begun : Bool) (t : Lexeme) (ts : List Lexeme) :
    begunBehind begun (t :: ts) = begunBehind (!t.node.isNewline) ts := by
  rw [begunBehind, begunBehind, List.getLast?_cons]
  cases ts.getLast? <;> rfl

theorem widths_append (width : Lexeme → Nat) (begun : Bool) (ts us : List Lexeme) :
    widths width begun (ts ++ us) = widths width begun ts ++ widths width (begunBehind begun ts) us := by
  induction ts generalizing begun with
  | nil => rfl
  | cons t ts ih => rw [List.cons_append, widths, widths, begunBehind_cons, ih, List.append_assoc]

theorem widths_congr {width width' : Lexeme → Nat} {ts : List Lexeme} (h : ∀ t ∈ ts, width t = width' t)
    (begun : Bool) : widths width begun ts = widths width' begun ts := by
  induction ts generalizing begun with
  | nil => rfl
  | cons t ts ih =>
    obtain ⟨ht, hts⟩ := List.forall_mem_cons.mp h
    rw [widths, widths, ih hts, ht]

/-! ## Widths behind a text -/

/-- The width of the line on which a token of the text stands. -/
def lineWidth (tab : Nat) (text : List Char) (t : Lexeme) : Nat :=
  indentWidth tab 0 ((LineIndex.ofSource text).lineAt t.span.start).text

/-- A token begins with a character that is no white space. -/
theorem exists_place {before text : List Char} {t : Lexeme} (h : t ∈ lexemes (byteLength before) text) :
    ∃ front c rest, text = front ++ c :: rest ∧ t.span.start = byteLength (before ++ front) ∧
      isSkippable c = false := by
  induction text using scan_induction generalizing before with
  | nil =>
    rw [lexemes] at h
    exact absurd h List.not_mem_nil
  | piece c rest ih =>
    have hrest : t ∈ lexemes (byteLength before + byteLength (c :: rest.take (scan c rest).more))
        (rest.drop (scan c rest).more) → ∃ front d behind, c :: rest = front ++ d :: behind ∧
          t.span.start = byteLength (before ++ front) ∧ isSkippable d = false := by
      intro hmem
      rw [← byteLength_append] at hmem
      obtain ⟨front, d, behind, hsplit, hstart, hd⟩ := ih hmem
      refine ⟨c :: rest.take (scan c rest).more ++ front, d, behind, ?_, by rw [hstart, List.append_assoc], hd⟩
      rw [List.append_assoc, ← hsplit, List.cons_append, List.take_append_drop]
    rw [lexemes] at h
    split at h
    · next u hu =>
      obtain rfl | hmem := List.mem_cons.mp h
      · exact ⟨[], c, rest, rfl, by rw [List.append_nil], isSkippable_of_scan hu⟩
      · exact hrest hmem
    · exact hrest h

/-- The width of a line does not depend on what stands behind a token on it. -/
theorem lineWidth_append {tab : Nat} {before text : List Char} {t : Lexeme}
    (h : t ∈ lexemes (byteLength before) text) (behind : List Char) :
    lineWidth tab (before ++ (text ++ behind)) t = lineWidth tab (before ++ text) t := by
  obtain ⟨front, c, rest, rfl, hstart, hc⟩ := exists_place h
  have hsplit : ∀ more, before ++ (front ++ c :: rest ++ more) = (before ++ front) ++ c :: (rest ++ more) := by simp
  rw [lineWidth, lineWidth, hstart, hsplit, ← List.append_assoc, indentWidth_lineAt hc, indentWidth_lineAt hc]

/-- The widths of the lines of a text that has another one in front of it. -/
def widthsBehind (tab : Nat) (before : List Char) (begun : Bool) (text : List Char) : List Nat :=
  widths (lineWidth tab (before ++ text)) begun (lexemes (byteLength before) text)

/-- What is passed over in front of the first token of a text, if that token is no line feed. -/
def openingGap? (text : List Char) : Option (List Char) :=
  match text with
  | [] => none
  | c :: rest =>
    let s := scan c rest
    match s.token? with
    | some t => if t.isNewline then none else some []
    | none => (openingGap? (rest.drop s.more)).map (c :: rest.take s.more ++ ·)
termination_by text.length
decreasing_by
  simp only [List.length_cons, List.length_drop]
  omega

section Behind
variable {tab : Nat} {before before' text : List Char} {begun : Bool}

theorem widthsBehind_nil : widthsBehind tab before begun [] = [] := by
  rw [widthsBehind, lexemes]
  rfl

variable {c : Char} {rest taken behind : List Char}

theorem widthsBehind_none (h : (scan c rest).token? = none) :
    widthsBehind tab before begun (c :: rest) =
      widthsBehind tab (before ++ c :: rest.take (scan c rest).more) begun (rest.drop (scan c rest).more) := by
  have htext : before ++ c :: rest =
      (before ++ c :: rest.take (scan c rest).more) ++ rest.drop (scan c rest).more := by simp
  rw [widthsBehind, widthsBehind, lexemes, ← htext, byteLength_append]
  simp only [h]

theorem widthsBehind_some {t : Token} (h : (scan c rest).token? = some t) :
    widthsBehind tab before begun (c :: rest) =
      (if begun then [] else [if t.isNewline then 0 else margin tab before]) ++
        widthsBehind tab (before ++ c :: rest.take (scan c rest).more) (!t.isNewline)
          (rest.drop (scan c rest).more) := by
  have htext : before ++ c :: rest =
      (before ++ c :: rest.take (scan c rest).more) ++ rest.drop (scan c rest).more := by simp
  rw [widthsBehind, widthsBehind, lexemes, ← htext, byteLength_append]
  simp only [h, widths, indentWidth_lineAt (isSkippable_of_scan h), lineWidth]

theorem lastLine_append_congr (h : lastLine before = lastLine before') (text : List Char) :
    lastLine (before ++ text) = lastLine (before' ++ text) := by
  by_cases hmem : '\n' ∈ text
  · rw [lastLine_append_of_mem hmem, lastLine_append_of_mem hmem]
  · rw [lastLine_append_of_not_mem hmem, lastLine_append_of_not_mem hmem, h]

/-- Behind a token a line has begun, or the token has ended the last one. -/
theorem begun_or_lastLine_eq {t : Token} (h : (scan c rest).token? = some t) :
    (!t.isNewline) = true ∨ lastLine (before ++ c :: rest.take (scan c rest).more) =
      lastLine (before' ++ c :: rest.take (scan c rest).more) := by
  obtain ⟨rfl, rfl, hmore⟩ | hproper := scan_lineFeed_or_proper h
  · have hfeed : ∀ front : List Char, lastLine (front ++ ['\n']) = [] :=
      fun front => lastLine_append_of_mem (List.mem_singleton_self _) front
    rw [hmore, List.take_zero, hfeed, hfeed]
    exact .inr rfl
  · rw [isNewline_eq_false hproper]
    exact .inl rfl

/-- Of the text in front only its last line matters, and that only if no token stands on it. -/
theorem widthsBehind_congr (h : begun = true ∨ lastLine before = lastLine before') :
    widthsBehind tab before begun text = widthsBehind tab before' begun text := by
  induction text using scan_induction generalizing before before' begun with
  | nil => rw [widthsBehind_nil, widthsBehind_nil]
  | piece c rest ih =>
    cases hscan : (scan c rest).token? with
    | none =>
      rw [widthsBehind_none hscan, widthsBehind_none hscan]
      exact ih (h.imp_right fun hlast => lastLine_append_congr hlast _)
    | some t =>
      have hmargin : (if begun then [] else [if t.isNewline then 0 else margin tab before]) =
          if begun then [] else [if t.isNewline then 0 else margin tab before'] := by
        obtain rfl | hlast := h
        · rfl
        · rw [margin, margin, hlast]
      rw [widthsBehind_some hscan, widthsBehind_some hscan, hmargin, ih (begun_or_lastLine_eq hscan)]

/-- Behind two texts that leave no line begun, the lines have the same widths just if the first token has the same
margin, unless it is a line feed. -/
theorem widthsBehind_eq_iff :
    widthsBehind tab before false text = widthsBehind tab before' false text ↔
      ∀ gap ∈ openingGap? text, margin tab (before ++ gap) = margin tab (before' ++ gap) := by
  induction text using scan_induction generalizing before before' with
  | nil => simp [widthsBehind_nil, openingGap?]
  | piece c rest ih =>
    rw [openingGap?]
    cases hscan : (scan c rest).token? with
    | none =>
      rw [widthsBehind_none hscan, widthsBehind_none hscan, ih]
      simp only [Option.mem_def, Option.map_eq_some_iff, List.append_assoc]
      constructor
      · rintro h _ ⟨gap, hgap, rfl⟩
        exact h gap hgap
      · exact fun h gap hgap => h _ ⟨gap, hgap, rfl⟩
    | some t =>
      rw [widthsBehind_some hscan, widthsBehind_some hscan, widthsBehind_congr (begun_or_lastLine_eq hscan),
        List.append_left_inj]
      cases hnewline : t.isNewline <;> simp [hnewline]

end Behind

/-! ## The layout pass -/

section Alike
variable {index index' : LineIndex} {tab : Nat}

/-- The marks of a line do not depend on where it stands. -/
theorem enterLine_alike (levels : List Nat) (width start first start' first' : Nat) :
    Alike (enterLine levels width start first).1 (enterLine levels width start' first').1 ∧
      (enterLine levels width start first).2 = (enterLine levels width start' first').2 := by
  have hclosed : ∀ closed : List Nat, Alike (closed.map fun _ => mark .dedent ⟨first, first⟩)
      (closed.map fun _ => mark .dedent ⟨first', first'⟩) := by
    intro closed
    rw [Alike, List.map_map, List.map_map]
    rfl
  rw [enterLine, enterLine]
  split
  · exact ⟨rfl, rfl⟩
  · dsimp only
    split
    · exact ⟨hclosed _, rfl⟩
    · exact ⟨(hclosed _).append rfl, rfl⟩

theorem splitLines_alike {ts us : List Lexeme} (h : Alike ts us) (eof eof' : Nat) :
    (splitLines eof ts).map (·.content.map (·.node)) = (splitLines eof' us).map (·.content.map (·.node)) := by
  induction us generalizing ts with
  | nil => rw [h.eq_nil]; rfl
  | cons u us ih =>
    obtain ⟨t, ts, rfl, hnode, hts⟩ := h.exists_cons
    have hlines := ih hts
    rw [splitLines, splitLines, hnode]
    split
    · rw [List.map_cons, List.map_cons, hlines]
    · revert hlines
      cases splitLines eof ts <;> cases splitLines eof' us <;> intro hlines
      · simp [hnode]
      · simp at hlines
      · simp at hlines
      · obtain ⟨hline, hmore⟩ := List.cons.inj hlines
        simp [hnode, hline, hmore]

/-- Lines with the same tokens and the same widths are laid out alike. -/
theorem layOut_alike {lines lines' : List TokenLine}
    (h : lines.map (·.content.map (·.node)) = lines'.map (·.content.map (·.node)))
    (hwidths : lines.map (·.width index tab) = lines'.map (·.width index' tab)) (levels : List Nat) :
    Alike (layOut index tab levels lines) (layOut index' tab levels lines') := by
  induction lines' generalizing lines levels with
  | nil =>
    obtain rfl := List.map_eq_nil_iff.mp h
    rw [layOut, layOut, Alike, List.map_map, List.map_map]
    rfl
  | cons line' lines' ih =>
    obtain ⟨line, lines, rfl, hline, hlines⟩ := List.map_eq_cons_iff.mp h
    obtain ⟨hwidth, hbehind⟩ := List.cons.inj hwidths
    obtain ⟨content, newline⟩ := line
    obtain ⟨content', newline'⟩ := line'
    have hcontents : Alike content content' := hline
    cases content' with
    | nil =>
      obtain rfl := hcontents.eq_nil
      exact .cons rfl (ih hlines hbehind levels)
    | cons first' more' =>
      obtain ⟨first, more, rfl, -, -⟩ := hcontents.exists_cons
      obtain ⟨hmarks, hlevels⟩ := enterLine_alike levels (indentWidth tab 0 (index.lineAt first.span.start).text)
        (index.lineAt first.span.start).start first.span.start (index'.lineAt first'.span.start).start
        first'.span.start
      have hsame : indentWidth tab 0 (index.lineAt first.span.start).text =
        indentWidth tab 0 (index'.lineAt first'.span.start).text := hwidth
      rw [layOut, layOut]
      dsimp only
      rw [← hsame, ← hlevels]
      exact (hmarks.append hcontents).append (.cons rfl (ih hlines hbehind _))

end Alike

end BranchingStory.Token
