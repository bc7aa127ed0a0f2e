import BranchingStory.Proofs.Token.Shape

/-! # The lines of a source and its open levels

The tokens of a source are its lines with tokens, one behind the other: each has the blank lines in front of
it, the marks with which it is entered, what stands in it, and its end. A line that is wider than the innermost
open level opens one, any other closes the levels that are wider than itself and is at fault if its width is
none of them. -/

namespace BranchingStory.Token
set_option autoImplicit false

/-! ## Lines as they are entered -/

/-- How a line is entered: it opens a level, or it closes some, if any, and may then be at fault. -/
inductive Entry where
  | opens (span : Span)
  | closes (closed : List Span) (fault : Option Span)

namespace Entry

def marks : Entry → List Lexeme
  | .opens span => [mark .indent span]
  | .closes closed fault => closed.map (mark .dedent) ++ fault.toList.map (mark .indentError)

/-- The levels that are open in a line of the width, innermost first, the base level last. -/
def levels (before : List Nat) (width : Nat) : Entry → List Nat
  | .opens _ => width :: before
  | .closes closed _ => before.drop closed.length

/-- Does a line of the width have to be entered in this way where these levels are open? -/
structure Fits (before : List Nat) (width : Nat) (e : Entry) : Prop where
  opens_iff : (∃ span, e = .opens span) ↔ before.headD 0 < width
  fault_iff : (∃ closed span, e = .closes closed (some span)) ↔ width < before.headD 0 ∧ width ∉ before
  closed : ∀ closed fault, e = .closes closed fault → closed.length = (before.filter (width < ·)).length

end Entry

/-- A line with tokens and what stands in front of it. -/
structure Stanza where
  blanks : List Span
  entry : Entry
  line : TokenLine

namespace Stanza

def lexemes (s : Stanza) : List Lexeme :=
  s.blanks.map (mark .blankLine) ++ (s.entry.marks ++ (s.line.content ++ [mark .newline s.line.newline]))

end Stanza

/-- The width of the white space in front of the first token of a line. -/
def TokenLine.width (index : LineIndex) (tab : Nat) (line : TokenLine) : Nat :=
  match line.content with
  | [] => 0
  | first :: _ => indentWidth tab 0 (index.lineAt first.span.start).text

/-- Do the levels, innermost first, increase strictly from the base level 0? -/
def AreLevels (levels : List Nat) : Prop := levels.Pairwise (· > ·) ∧ levels.getLast? = some 0

/-- Is each line entered as it has to be, and are all levels but the base one closed in the end? -/
def LaidOut (index : LineIndex) (tab closing : Nat) : List Nat → List Stanza → Prop
  | levels, [] => AreLevels levels ∧ levels.length = closing + 1
  | levels, s :: rest =>
    AreLevels levels ∧ s.entry.Fits levels (s.line.width index tab) ∧
      LaidOut index tab closing (s.entry.levels levels (s.line.width index tab)) rest

/-! ## Levels in order -/

section Levels
variable {levels : List Nat} {width : Nat}

theorem filter_of_pairwise (h : levels.Pairwise (· > ·)) :
    levels.filter (width < ·) = levels.takeWhile (width < ·) := by
  induction levels with
  | nil => rfl
  | cons level rest ih =>
    obtain ⟨hlevel, hrest⟩ := List.pairwise_cons.mp h
    by_cases hwide : width < level
    · rw [List.filter_cons_of_pos (by simpa using hwide), List.takeWhile_cons_of_pos (by simpa using hwide),
        ih hrest]
    · have hnone : rest.filter (width < ·) = [] :=
        List.filter_eq_nil_iff.mpr fun other hother => by
          have hlt := hlevel other hother
          simp only [decide_eq_true_eq]
          omega
      rw [List.filter_cons_of_neg (by simpa using hwide), List.takeWhile_cons_of_neg (by simpa using hwide),
        hnone]

/-- Behind the levels that are wider than it a level stands first. -/
theorem head?_dropWhile_of_mem (h : levels.Pairwise (· > ·)) (hmem : width ∈ levels) :
    (levels.dropWhile (width < ·)).head? = some width := by
  induction levels with
  | nil => exact absurd hmem List.not_mem_nil
  | cons level rest ih =>
    obtain ⟨hlevel, hrest⟩ := List.pairwise_cons.mp h
    rcases List.mem_cons.mp hmem with rfl | hbehind
    · rw [List.dropWhile_cons_of_neg (by simp)]
      rfl
    · rw [List.dropWhile_cons_of_pos (by simpa using hlevel width hbehind), ih hrest hbehind]

theorem dropWhile_append_zero (levels : List Nat) (width : Nat) :
    (levels ++ [0]).dropWhile (width < ·) = levels.dropWhile (width < ·) ++ [0] := by
  rw [List.dropWhile_append]
  split
  · next hnone =>
    rw [List.isEmpty_iff.mp hnone]
    rfl
  · rfl

theorem takeWhile_append_zero (levels : List Nat) (width : Nat) :
    (levels ++ [0]).takeWhile (width < ·) = levels.takeWhile (width < ·) := by
  rw [List.takeWhile_append]
  split
  · next hall => simp [(List.takeWhile_prefix _).eq_of_length hall]
  · rfl

theorem takeWhile_append_dropWhile_zero (levels : List Nat) (width : Nat) :
    levels.takeWhile (width < ·) ++ (levels.dropWhile (width < ·) ++ [0]) = levels ++ [0] := by
  rw [← List.append_assoc, List.takeWhile_append_dropWhile]

theorem headD_append_zero (levels : List Nat) : (levels ++ [0]).headD 0 = levels.headD 0 := by
  cases levels <;> rfl

theorem headD_mem (levels : List Nat) : levels.headD 0 ∈ levels ++ [0] := by
  cases levels with
  | nil => exact List.mem_singleton_self 0
  | cons top rest => exact List.mem_cons_self

theorem AreLevels.drop (h : AreLevels (levels ++ [0])) (width : Nat) :
    AreLevels (levels.dropWhile (width < ·) ++ [0]) := by
  refine ⟨?_, by simp⟩
  rw [← dropWhile_append_zero]
  exact h.1.sublist (List.dropWhile_sublist _)

theorem AreLevels.cons (h : AreLevels (levels ++ [0])) (hwide : levels.headD 0 < width) :
    AreLevels (width :: levels ++ [0]) := by
  refine ⟨List.pairwise_cons.mpr ⟨fun level hlevel => ?_, h.1⟩, List.getLast?_concat (l := width :: levels)⟩
  cases levels with
  | nil =>
    obtain rfl := List.mem_singleton.mp hlevel
    exact hwide
  | cons top rest =>
    have hwide : top < width := hwide
    rcases List.mem_cons.mp hlevel with rfl | hbehind
    · exact hwide
    · exact Nat.lt_trans ((List.pairwise_cons.mp h.1).1 level hbehind) hwide

/-- A line that is no wider than the innermost level closes down to a level of its width or is at fault. -/
theorem headD_dropWhile_eq_iff (h : AreLevels (levels ++ [0])) :
    (levels.dropWhile (width < ·)).headD 0 = width ↔ width ∈ levels ++ [0] := by
  rw [← headD_append_zero, ← dropWhile_append_zero]
  constructor
  · intro hhead
    have hne : (levels ++ [0]).dropWhile (width < ·) ≠ [] := by simp [dropWhile_append_zero]
    obtain ⟨top, rest, hcons⟩ := List.exists_cons_of_ne_nil hne
    rw [hcons, List.headD_cons] at hhead
    refine (List.dropWhile_sublist (width < ·)).subset ?_
    rw [hcons, hhead]
    exact List.mem_cons_self
  · intro hmem
    rw [List.headD_eq_head?_getD, head?_dropWhile_of_mem h.1 hmem, Option.getD_some]

end Levels

/-! ## One line -/

theorem exists_entry {levels : List Nat} (h : AreLevels (levels ++ [0])) (width start first : Nat) :
    ∃ e : Entry, (enterLine levels width start first).1 = e.marks ∧ e.Fits (levels ++ [0]) width ∧
      (enterLine levels width start first).2 ++ [0] = e.levels (levels ++ [0]) width ∧
      AreLevels ((enterLine levels width start first).2 ++ [0]) := by
  rw [enterLine]
  split
  · next hwide =>
    refine ⟨.opens ⟨first, first⟩, rfl, ⟨?_, ?_, by simp⟩, rfl, h.cons hwide⟩
    · simpa [headD_append_zero] using hwide
    · simp only [reduceCtorEq, exists_false, headD_append_zero, false_iff, not_and]
      omega
  · next hnarrow =>
    dsimp only
    have hmarks : (levels.takeWhile (width < ·)).map (fun _ => mark .dedent ⟨first, first⟩) =
        ((levels.takeWhile (width < ·)).map fun _ => (⟨first, first⟩ : Span)).map (mark .dedent) := by
      rw [List.map_map]
      rfl
    have hcount : ((levels.takeWhile (width < ·)).map fun _ => (⟨first, first⟩ : Span)).length =
        ((levels ++ [0]).filter (width < ·)).length := by
      rw [List.length_map, filter_of_pairwise h.1, takeWhile_append_zero]
    have hopen : levels.dropWhile (width < ·) ++ [0] = (levels ++ [0]).drop
        ((levels.takeWhile (width < ·)).map fun _ => (⟨first, first⟩ : Span)).length := by
      have hsplit := congrArg (List.drop (levels.takeWhile (width < ·)).length)
        (takeWhile_append_dropWhile_zero levels width)
      rwa [List.drop_left, ← List.length_map (fun _ => (⟨first, first⟩ : Span))] at hsplit
    split
    · next hmet =>
      refine ⟨.closes _ none, by rw [hmarks]; simp [Entry.marks], ⟨?_, ?_, ?_⟩, hopen, h.drop width⟩
      · simpa [headD_append_zero] using hnarrow
      · have hmem := (headD_dropWhile_eq_iff h).mp hmet
        simp only [Entry.closes.injEq, reduceCtorEq, and_false, exists_false, false_iff]
        exact fun hnone => hnone.2 hmem
      · rintro closed fault ⟨⟩
        exact hcount
    · next hfault =>
      refine ⟨.closes _ (some ⟨start, first⟩), by rw [hmarks]; rfl, ⟨?_, ?_, ?_⟩, hopen, h.drop width⟩
      · simpa [headD_append_zero] using hnarrow
      · have hmem := mt (headD_dropWhile_eq_iff h).mpr hfault
        have hlt : width < (levels ++ [0]).headD 0 := by
          rw [headD_append_zero]
          refine Nat.lt_of_le_of_ne (Nat.not_lt.mp hnarrow) fun hsame => hmem ?_
          rw [hsame]
          exact headD_mem levels
        exact iff_of_true ⟨_, _, rfl⟩ ⟨hlt, hmem⟩
      · rintro closed fault ⟨⟩
        exact hcount

/-! ## All lines -/

theorem exists_stanzas (index : LineIndex) (tab : Nat) {levels : List Nat} (h : AreLevels (levels ++ [0]))
    (lines : List TokenLine) :
    ∃ (stanzas : List Stanza) (blanks closing : List Span),
      layOut index tab levels lines =
        stanzas.flatMap Stanza.lexemes ++ (blanks.map (mark .blankLine) ++ closing.map (mark .dedent)) ∧
      stanzas.map (·.line) = lines.filter (!·.content.isEmpty) ∧
      LaidOut index tab closing.length (levels ++ [0]) stanzas := by
  induction lines generalizing levels with
  | nil =>
    refine ⟨[], [], levels.map fun _ => ⟨index.length, index.length⟩, ?_, rfl, h, by simp⟩
    rw [layOut, List.map_map]
    rfl
  | cons line lines ih =>
    rw [layOut]
    split
    · next hcontent =>
      -- A blank line stands in front of the next line with tokens, or behind all of them.
      obtain ⟨stanzas, blanks, closing, htokens, hlines, hlaid⟩ := ih h
      have hkept : (line :: lines).filter (!·.content.isEmpty) = lines.filter (!·.content.isEmpty) :=
        List.filter_cons_of_neg (by simp [hcontent])
      cases stanzas with
      | nil =>
        refine ⟨[], line.newline :: blanks, closing, ?_, hlines.trans hkept.symm, hlaid⟩
        rw [htokens]
        rfl
      | cons s stanzas =>
        refine ⟨{ s with blanks := line.newline :: s.blanks } :: stanzas, blanks, closing, ?_,
          hlines.trans hkept.symm, hlaid⟩
        rw [htokens]
        rfl
    · next first others hcontent =>
      dsimp only
      have hwidth : line.width index tab = indentWidth tab 0 (index.lineAt first.span.start).text := by
        rw [TokenLine.width, hcontent]
      obtain ⟨e, hmarks, hfits, hlevels, hafter⟩ :=
        exists_entry h (line.width index tab) (index.lineAt first.span.start).start first.span.start
      obtain ⟨stanzas, blanks, closing, htokens, hlines, hlaid⟩ := ih hafter
      rw [hwidth] at hmarks htokens
      refine ⟨⟨[], e, line⟩ :: stanzas, blanks, closing, ?_, ?_, h, hfits, hlevels ▸ hlaid⟩
      · rw [hmarks, htokens]
        simp [Stanza.lexemes]
      · rw [List.map_cons, hlines, List.filter_cons_of_pos (by simp [hcontent])]

/-! ## Marks that open and marks that close -/

def countMarks (m : Layout) (ts : List Lexeme) : Nat := ts.countP (·.node == .layout m)

/-- The number of indentations that are open behind a token, unless it closes one too many. -/
def openBehind? (n : Nat) (t : Lexeme) : Option Nat :=
  match t.node with
  | .layout .indent => some (n + 1)
  | .layout .dedent => if n = 0 then none else some (n - 1)
  | _ => some n

theorem openBehind?_proper {n : Nat} {t : Lexeme} (h : t.node.isLayout = false) :
    openBehind? n t = some n := by
  rw [openBehind?]
  split
  · next hnode => simp [hnode, isLayout] at h
  · next hnode => simp [hnode, isLayout] at h
  · rfl

theorem foldlM_openBehind?_proper {n : Nat} {words : List Lexeme} (h : ∀ t ∈ words, t.node.isLayout = false) :
    words.foldlM openBehind? n = some n := by
  induction words with
  | nil => rfl
  | cons t rest ih =>
    obtain ⟨ht, hrest⟩ := List.forall_mem_cons.mp h
    rw [List.foldlM_cons, openBehind?_proper ht]
    exact ih hrest

/-- Tokens of the shape close one after the other all indentations that are open. -/
theorem Shaped.foldlM_openBehind? {n : Nat} {ts : List Lexeme} (h : Shaped n ts) :
    ts.foldlM openBehind? n = some 0 := by
  induction h with
  | done => rfl
  | dedent h ih => exact ih
  | indent h ih => exact ih
  | indentError h ih => exact ih
  | blankLine h ih => exact ih
  | line hne hproper h ih =>
    rw [List.foldlM_append, foldlM_openBehind?_proper hproper]
    exact ih

/-- Behind some tokens as many indentations are open as were opened and not closed. -/
theorem countMarks_of_foldlM {n m : Nat} {ts : List Lexeme} (h : ts.foldlM openBehind? n = some m) :
    n + countMarks .indent ts = m + countMarks .dedent ts := by
  induction ts generalizing n with
  | nil =>
    obtain rfl := Option.some.inj h
    rfl
  | cons t rest ih =>
    rw [List.foldlM_cons] at h
    obtain ⟨k, hk, hrest⟩ := Option.bind_eq_some_iff.mp h
    have hrest := ih hrest
    have hcons : ∀ mark, countMarks mark (t :: rest) =
        countMarks mark rest + if t.node == .layout mark then 1 else 0 :=
      fun mark => List.countP_cons
    rw [hcons, hcons]
    rw [openBehind?] at hk
    split at hk
    · next hnode =>
      obtain rfl := Option.some.inj hk
      simp only [hnode, beq_self_eq_true, if_true, beq_iff_eq, Token.layout.injEq, reduceCtorEq, if_false]
      omega
    · next hnode =>
      split at hk
      · exact absurd hk (by simp)
      · obtain rfl := Option.some.inj hk
        simp only [hnode, beq_self_eq_true, if_true, beq_iff_eq, Token.layout.injEq, reduceCtorEq, if_false]
        omega
    · next hindent hdedent =>
      obtain rfl := Option.some.inj hk
      rw [if_neg (by simpa using hindent), if_neg (by simpa using hdedent)]
      omega

theorem Shaped.countMarks_take_le {ts : List Lexeme} (h : Shaped 0 ts) (k : Nat) :
    countMarks .dedent (ts.take k) ≤ countMarks .indent (ts.take k) := by
  have hall := h.foldlM_openBehind?
  rw [← List.take_append_drop k ts, List.foldlM_append] at hall
  obtain ⟨m, hm, -⟩ := Option.bind_eq_some_iff.mp hall
  have hcount := countMarks_of_foldlM hm
  omega

theorem Shaped.countMarks_eq {ts : List Lexeme} (h : Shaped 0 ts) :
    countMarks .dedent ts = countMarks .indent ts := by
  have hcount := countMarks_of_foldlM h.foldlM_openBehind?
  omega

/-! ## Tokens that are no marks -/

theorem Entry.proper_marks (e : Entry) : proper e.marks = [] := by
  cases e with
  | opens span => rfl
  | closes closed fault =>
    exact proper_of_marks (List.forall_mem_append.mpr ⟨isLayout_of_mem_marks _ _, isLayout_of_mem_marks _ _⟩)

theorem Stanza.proper_lexemes {s : Stanza} (h : ∀ t ∈ s.line.content, t.node.isLayout = false) :
    proper s.lexemes = s.line.content := by
  rw [Stanza.lexemes, proper_append, proper_of_marks (isLayout_of_mem_marks _ _), proper_append, Entry.proper_marks,
    proper_line h]
  rfl

theorem proper_flatMap_lexemes {stanzas : List Stanza}
    (h : ∀ s ∈ stanzas, ∀ t ∈ s.line.content, t.node.isLayout = false) :
    proper (stanzas.flatMap Stanza.lexemes) = (stanzas.map (·.line)).flatMap (·.content) := by
  induction stanzas with
  | nil => rfl
  | cons s rest ih =>
    obtain ⟨hs, hrest⟩ := List.forall_mem_cons.mp h
    rw [List.flatMap_cons, proper_append, Stanza.proper_lexemes hs, ih hrest, List.map_cons, List.flatMap_cons]

/-- The lines hold the tokens that are no line feeds. -/
theorem flatMap_content_splitLines (eof : Nat) (ts : List Lexeme) :
    (splitLines eof ts).flatMap (·.content) = ts.filter (!·.node.isNewline) := by
  induction ts with
  | nil => rfl
  | cons t rest ih =>
    rw [splitLines]
    split
    · next hnewline =>
      rw [List.flatMap_cons, List.nil_append, ih, List.filter_cons_of_neg (by simp [hnewline])]
    · next hnewline =>
      rw [List.filter_cons_of_pos (by simp [hnewline]), ← ih]
      split
      · next hnone => rw [hnone]; rfl
      · next line lines hlines => rw [hlines]; rfl

theorem flatMap_content_filter (lines : List TokenLine) :
    (lines.filter (!·.content.isEmpty)).flatMap (·.content) = lines.flatMap (·.content) := by
  induction lines with
  | nil => rfl
  | cons line lines ih =>
    cases hcontent : line.content with
    | nil =>
      rw [List.filter_cons_of_neg (by simp [hcontent]), ih, List.flatMap_cons, hcontent, List.nil_append]
    | cons t rest => rw [List.filter_cons_of_pos (by simp [hcontent]), List.flatMap_cons, List.flatMap_cons, ih]

/-! ## The tokens of a source -/

/-- The tokens of a source are its lines with tokens, each behind the blank lines in front of it and the marks
with which it is entered; behind them stand the last blank lines and a mark for each level that is still open.
Without the marks they are the scanned tokens without the line feeds. Nowhere are more indentations closed than
were opened, and in the end all are closed. The open levels always increase from 0; a level is opened just for
a line that is wider than the innermost one, and a line is at fault just if it is narrower than that and as
wide as none. -/
theorem laidOut_tokens (source : Source) (tabWidth : Nat) :
    (∃ (stanzas : List Stanza) (blanks closing : List Span),
      tokens source tabWidth =
        stanzas.flatMap Stanza.lexemes ++ (blanks.map (mark .blankLine) ++ closing.map (mark .dedent)) ∧
      (∀ s ∈ stanzas, s.line.content ≠ [] ∧ ∀ t ∈ s.line.content, t.node.isLayout = false) ∧
      stanzas.map (·.line) =
        (splitLines source.length (lexemes 0 source.text)).filter (!·.content.isEmpty) ∧
      LaidOut source.index (max tabWidth 1) closing.length [0] stanzas) ∧
    proper (tokens source tabWidth) = (lexemes 0 source.text).filter (!·.node.isNewline) ∧
    (∀ k, countMarks .dedent ((tokens source tabWidth).take k) ≤
      countMarks .indent ((tokens source tabWidth).take k)) ∧
    countMarks .dedent (tokens source tabWidth) = countMarks .indent (tokens source tabWidth) := by
  have hshaped := shaped_tokens source tabWidth
  have hproper := (linesChained_splitLines (chained_lexemes [] source.text)).proper
  have hbase : AreLevels ([] ++ [0]) := ⟨List.pairwise_singleton _ 0, rfl⟩
  obtain ⟨stanzas, blanks, closing, htokens, hlines, hlaid⟩ :=
    exists_stanzas source.index (max tabWidth 1) hbase (splitLines source.length (lexemes 0 source.text))
  have hcontent : ∀ s ∈ stanzas, s.line.content ≠ [] ∧ ∀ t ∈ s.line.content, t.node.isLayout = false := by
    intro s hs
    have hline := List.mem_map_of_mem (f := (·.line)) hs
    rw [hlines, source.length_eq] at hline
    obtain ⟨hmem, hsome⟩ := List.mem_filter.mp hline
    exact ⟨by simpa using hsome, hproper _ hmem⟩
  refine ⟨⟨stanzas, blanks, closing, htokens, hcontent, hlines, hlaid⟩, ?_, hshaped.countMarks_take_le,
    hshaped.countMarks_eq⟩
  have hmarks : proper (blanks.map (mark .blankLine) ++ closing.map (mark .dedent)) = [] :=
    proper_of_marks (List.forall_mem_append.mpr ⟨isLayout_of_mem_marks _ _, isLayout_of_mem_marks _ _⟩)
  rw [tokens, htokens, proper_append, hmarks, List.append_nil, proper_flatMap_lexemes fun s hs => (hcontent s hs).2,
    hlines, flatMap_content_filter, flatMap_content_splitLines]

end BranchingStory.Token
