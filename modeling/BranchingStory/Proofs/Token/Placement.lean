import BranchingStory.Document.Cursor
import BranchingStory.Proofs.Source.Lines
import BranchingStory.Proofs.Token.Scanning
import BranchingStory.Token.Indentation

/-! # Where tokens stand

Scanned tokens follow one another without overlap, and each begins and ends at a boundary of the text.
The marks of the layout pass break that order, since the mark of a wrong indentation begins in front of
the marks it stands behind; but no token begins before the end of the last proper token in front of
it. -/

namespace BranchingStory.Token
open Text
set_option autoImplicit false

/-! ## Scanned tokens -/

/-- Does a line begin at the offset? -/
def IsLineStart (text : List Char) (offset : Nat) : Prop :=
  ∃ line ∈ (LineIndex.ofSource text).lines, line.start = offset

theorem isLineStart_zero (text : List Char) : IsLineStart text 0 :=
  ⟨⟨0, text⟩, LineIndex.mem_lines.mpr (.inl rfl), rfl⟩

theorem isLineStart_lineFeed (before behind : List Char) :
    IsLineStart (before ++ '\n' :: behind) (byteLength before + 1) :=
  ⟨⟨byteLength before + 1, behind⟩, LineIndex.mem_lines.mpr (.inr ⟨before, behind, rfl, rfl⟩), rfl⟩

/-- Do the tokens follow one another from the offset up to the limit, and does a line begin behind every
line feed? -/
def Chained (text : List Char) (limit : Nat) : Nat → List Lexeme → Prop
  | offset, [] => offset ≤ limit
  | offset, t :: rest =>
    offset ≤ t.span.start ∧ t.span.start < t.span.stop ∧ IsBoundary text t.span.start ∧
      IsBoundary text t.span.stop ∧
      (t.node.isLayout = true → t.node.isNewline = true ∧ IsLineStart text t.span.stop) ∧
      Chained text limit t.span.stop rest

theorem Chained.mono {text : List Char} {limit a b : Nat} {ts : List Lexeme} (h : Chained text limit b ts)
    (hle : a ≤ b) : Chained text limit a ts := by
  cases ts with
  | nil => exact Nat.le_trans hle h
  | cons t rest => exact ⟨Nat.le_trans hle h.1, h.2⟩

theorem chained_lexemes (before behind : List Char) :
    Chained (before ++ behind) (byteLength (before ++ behind)) (byteLength before)
      (lexemes (byteLength before) behind) := by
  induction hlength : behind.length using Nat.strongRecOn generalizing before behind with
  | ind n ih =>
    cases behind with
    | nil =>
      rw [lexemes, List.append_nil]
      exact Nat.le_refl _
    | cons c rest =>
      obtain ⟨taken, htaken⟩ : ∃ taken, taken = c :: rest.take (scan c rest).more := ⟨_, rfl⟩
      have hsplit : c :: rest = taken ++ rest.drop (scan c rest).more := by
        rw [htaken, List.cons_append, List.take_append_drop]
      have htext : before ++ c :: rest = (before ++ taken) ++ rest.drop (scan c rest).more := by
        rw [hsplit, List.append_assoc]
      have hnext : byteLength before + byteLength taken = byteLength (before ++ taken) :=
        (byteLength_append _ _).symm
      have hlt : byteLength before < byteLength (before ++ taken) := by
        have hpos : 0 < c.utf8Size := c.utf8Size_pos
        rw [byteLength_append, htaken, byteLength_cons]
        omega
      have hrest := ih (rest.drop (scan c rest).more).length (by simp at hlength ⊢; omega) (before ++ taken)
        (rest.drop (scan c rest).more) rfl
      rw [← htext] at hrest
      rw [lexemes, ← htaken, hnext]
      split
      · next token htoken =>
        refine ⟨Nat.le_refl _, hlt, isBoundary_append _ _, ?_, ?_, hrest⟩
        · rw [htext]
          exact isBoundary_append _ _
        · intro hlayout
          obtain ⟨rfl, rfl, hmore⟩ | ⟨name, rfl, -⟩ | ⟨hproper, -⟩ := scan_token htoken
          case inr.inl => exact absurd hlayout (by simp [isLayout])
          case inr.inr => exact absurd hlayout (by simp [hproper])
          have hstop : byteLength (before ++ taken) = byteLength before + 1 := by
            rw [byteLength_append, htaken, hmore]
            rfl
          refine ⟨rfl, ?_⟩
          show IsLineStart _ (byteLength (before ++ taken))
          rw [hstop]
          exact isLineStart_lineFeed before rest
      · exact hrest.mono (Nat.le_of_lt hlt)

/-! ## Lines of tokens -/

/-- Do the tokens of each line stand in front of its end and behind the end of the line before? -/
def LinesChained (text : List Char) : Nat → List TokenLine → Prop
  | _, [] => True
  | offset, line :: lines =>
    (∀ t ∈ line.content, t.node.isLayout = false) ∧ Chained text line.newline.start offset line.content ∧
      line.newline.start ≤ line.newline.stop ∧ IsBoundary text line.newline.start ∧
      IsBoundary text line.newline.stop ∧ (lines ≠ [] → IsLineStart text line.newline.stop) ∧
      LinesChained text line.newline.stop lines

theorem linesChained_splitLines {text : List Char} {offset : Nat} {ts : List Lexeme}
    (h : Chained text (byteLength text) offset ts) :
    LinesChained text offset (splitLines (byteLength text) ts) := by
  induction ts generalizing offset with
  | nil => trivial
  | cons t rest ih =>
    obtain ⟨hstart, hlt, hboundary, hboundary', hlayout, hrest⟩ := h
    have hlines := ih hrest
    rw [splitLines]
    split
    · next hnewline =>
      have hnode : t.node = .layout .newline := by simpa [isNewline] using hnewline
      have hmark : t.node.isLayout = true := by
        rw [hnode]
        rfl
      exact ⟨by simp, hstart, Nat.le_of_lt hlt, hboundary, hboundary', fun _ => (hlayout hmark).2, hlines⟩
    · next hnewline =>
      have hproper : t.node.isLayout = false :=
        Bool.eq_false_iff.mpr fun hmark => hnewline (hlayout hmark).1
      have hone : ∀ limit ts, Chained text limit t.span.stop ts → Chained text limit offset (t :: ts) :=
        fun limit ts hts =>
          ⟨hstart, hlt, hboundary, hboundary', fun hmark => absurd hmark (by simp [hproper]), hts⟩
      split
      · exact ⟨by simpa using hproper, hone _ [] hboundary'.le, Nat.le_refl _, isBoundary_length text,
          isBoundary_length text, fun hne => absurd rfl hne, trivial⟩
      · next line lines hsplit =>
        rw [hsplit] at hlines
        obtain ⟨hcontent, hchained, hmore⟩ := hlines
        exact ⟨List.forall_mem_cons.mpr ⟨hproper, hcontent⟩, hone _ _ hchained, hmore⟩

/-! ## All tokens -/

theorem ne_layout {t : Token} (h : t.isLayout = false) (m : Layout) : t ≠ .layout m := by
  rintro rfl
  exact absurd h (by simp [isLayout])

/-- Does the token go with the one behind it? A proper token is followed by another one or by the end of
its line, the mark of an indentation by the first token of its line, with which it begins. -/
def Joined (t : Lexeme) (rest : List Lexeme) : Prop :=
  match t.node with
  | .layout .indent => ∃ u ∈ rest.head?, u.node.isLayout = false ∧ t.span.start = u.span.start
  | .layout _ => True
  | _ => t.span.start < t.span.stop ∧
      ∃ u ∈ rest.head?, u.node.isLayout = false ∨ u.node = .layout .newline

/-- Does no token begin before `lastEnd`, which is moved on to the end of each proper token? -/
def Laid (text : List Char) : Nat → List Lexeme → Prop
  | _, [] => True
  | lastEnd, t :: rest =>
    lastEnd ≤ t.span.start ∧ t.span.start ≤ t.span.stop ∧ IsBoundary text t.span.start ∧
      IsBoundary text t.span.stop ∧ Joined t rest ∧ Laid text (Cursor.endAfter lastEnd t) rest

theorem joined_of_proper {t : Lexeme} {rest : List Lexeme} (h : t.node.isLayout = false) :
    Joined t rest ↔ t.span.start < t.span.stop ∧
      ∃ u ∈ rest.head?, u.node.isLayout = false ∨ u.node = .layout .newline := by
  rw [Joined]
  split
  · next hnode => simp [hnode, isLayout] at h
  · next m _ hnode => simp [hnode, isLayout] at h
  · rfl

theorem laid_mark {text : List Char} {lastEnd : Nat} {m : Layout} {span : Span} {rest : List Lexeme}
    (hm : m ≠ .indent) (hle : lastEnd ≤ span.start) (hordered : span.start ≤ span.stop)
    (hstart : IsBoundary text span.start) (hstop : IsBoundary text span.stop)
    (hrest : Laid text lastEnd rest) :
    Laid text lastEnd (mark m span :: rest) := by
  refine ⟨hle, hordered, hstart, hstop, ?_, hrest⟩
  cases m with
  | indent => exact absurd rfl hm
  | _ => trivial

theorem laid_content {text : List Char} {lastEnd offset : Nat} {content : List Lexeme} {newline : Span}
    {rest : List Lexeme} (hproper : ∀ t ∈ content, t.node.isLayout = false)
    (hchained : Chained text newline.start offset content) (hle : lastEnd ≤ offset)
    (hordered : newline.start ≤ newline.stop) (hstart : IsBoundary text newline.start)
    (hstop : IsBoundary text newline.stop) (hrest : ∀ e, e ≤ newline.stop → Laid text e rest) :
    Laid text lastEnd (content ++ mark .newline newline :: rest) := by
  induction content generalizing lastEnd offset with
  | nil =>
    have hfront : offset ≤ newline.start := hchained
    exact laid_mark (by simp) (Nat.le_trans hle hfront) hordered hstart hstop (hrest _ (by omega))
  | cons t ts ih =>
    obtain ⟨hfrom, hlt, hboundary, hboundary', -, hts⟩ := hchained
    obtain ⟨ht, hproper⟩ := List.forall_mem_cons.mp hproper
    have hend : Cursor.endAfter lastEnd t = t.span.stop := by simp [Cursor.endAfter, ht]
    refine ⟨Nat.le_trans hle hfrom, Nat.le_of_lt hlt, hboundary, hboundary', ?_, ?_⟩
    · refine (joined_of_proper ht).mpr ⟨hlt, ?_⟩
      cases ts with
      | nil => exact ⟨_, rfl, .inr rfl⟩
      | cons u us => exact ⟨u, rfl, .inl (hproper u List.mem_cons_self)⟩
    · rw [hend]
      exact ih hproper hts (Nat.le_refl _)

theorem laid_enterLine {text : List Char} {lastEnd width start : Nat} {first : Lexeme} {levels : List Nat}
    {rest : List Lexeme} (hfirst : first.node.isLayout = false) (hle : lastEnd ≤ start)
    (hordered : start ≤ first.span.start) (hstart : IsBoundary text start)
    (hboundary : IsBoundary text first.span.start) (hrest : Laid text lastEnd (first :: rest)) :
    Laid text lastEnd ((enterLine levels width start first.span.start).1 ++ first :: rest) := by
  have hdedents : ∀ (closed : List Nat) (behind : List Lexeme), Laid text lastEnd behind →
      Laid text lastEnd
        ((closed.map fun _ => mark .dedent ⟨first.span.start, first.span.start⟩) ++ behind) := by
    intro closed behind hbehind
    induction closed with
    | nil => exact hbehind
    | cons level closed ih =>
      exact laid_mark (by simp) (Nat.le_trans hle hordered) (Nat.le_refl _) hboundary hboundary ih
  rw [enterLine]
  split
  · exact ⟨Nat.le_trans hle hordered, Nat.le_refl _, hboundary, hboundary,
      ⟨first, rfl, hfirst, rfl⟩, hrest⟩
  · dsimp only
    split
    · exact hdedents _ _ hrest
    · rw [List.append_assoc]
      exact hdedents _ _ (laid_mark (by simp) hle hordered hstart hboundary hrest)

theorem laid_layOut {text : List Char} (tab : Nat) {offset lastEnd : Nat} {levels : List Nat}
    {lines : List TokenLine} (h : LinesChained text offset lines) (hoffset : IsBoundary text offset)
    (hline : lines ≠ [] → IsLineStart text offset) (hle : lastEnd ≤ offset) :
    Laid text lastEnd (layOut (LineIndex.ofSource text) tab levels lines) := by
  induction lines generalizing offset lastEnd levels with
  | nil =>
    rw [layOut]
    have hend := isBoundary_length text
    induction levels with
    | nil => trivial
    | cons level levels ih =>
      exact laid_mark (by simp) (Nat.le_trans hle hoffset.le) (Nat.le_refl _) hend hend ih
  | cons line lines ih =>
    obtain ⟨hproper, hchained, hordered, hstart, hstop, hnext, hlines⟩ := h
    rw [layOut]
    split
    · next hnone =>
      rw [hnone] at hchained
      have hfront : offset ≤ line.newline.start := hchained
      exact laid_mark (by simp) (Nat.le_trans hle hfront) hordered hstart hstop
        (ih hlines hstop hnext (by omega))
    · next first others hcontent =>
      rw [hcontent] at hchained hproper
      obtain ⟨hfrom, -, hboundary, -⟩ := id hchained
      -- The line that holds the first token begins no earlier than the line before ended.
      obtain ⟨begun, hbegun, rfl⟩ := hline (by simp)
      have hfloor := LineIndex.start_le_lineAt_start text first.span.start hbegun hfrom
      have hinside := LineIndex.lineAt_start_le text first.span.start
      have hmem := LineIndex.lineAt_mem text first.span.start
      have hrest : ∀ levels e, e ≤ line.newline.stop →
          Laid text e (layOut (LineIndex.ofSource text) tab levels lines) :=
        fun levels e he => ih hlines hstop hnext he
      simp only [hcontent, List.append_assoc]
      exact laid_enterLine (hproper first List.mem_cons_self) (Nat.le_trans hle hfloor) hinside
        (LineIndex.isBoundary_start hmem) hboundary
        (laid_content hproper hchained hle hordered hstart hstop (hrest _))

/-- No token of a source begins before the end of a proper token in front of it. -/
theorem laid_tokens (source : Source) (tabWidth : Nat) : Laid source.text 0 (tokens source tabWidth) := by
  have hindex : source.index = LineIndex.ofSource source.text := source.index_eq
  have hchained := chained_lexemes [] source.text
  rw [tokens, source.length_eq, hindex]
  exact laid_layOut _ (linesChained_splitLines hchained) (isBoundary_zero _)
    (fun _ => isLineStart_zero _) (Nat.le_refl _)

/-- An indentation begins where the first token in it does. -/
theorem Laid.start_eq {text : List Char} {lastEnd : Nat} {ts us : List Lexeme} {opening : Span} {u : Lexeme}
    (h : Laid text lastEnd ts) (hwithin : mark .indent opening :: u :: us <:+: ts) :
    u.node.isLayout = false ∧ u.span.start = opening.start := by
  obtain ⟨before, behind, rfl⟩ := hwithin
  induction before generalizing lastEnd with
  | nil =>
    obtain ⟨-, -, -, -, ⟨v, hv, hproper, hstart⟩, -⟩ := h
    obtain rfl : u = v := Option.some.inj hv
    exact ⟨hproper, hstart.symm⟩
  | cons t before ih =>
    obtain ⟨-, -, -, -, -, hrest⟩ := h
    exact ih hrest

/-! ## Words -/

theorem mem_lexemes {offset : Nat} {text : List Char} {name : String} {span : Span}
    (h : ⟨.word name, span⟩ ∈ lexemes offset text) : IsName name := by
  fun_induction lexemes offset text with
  | case1 => simp at h
  | case2 offset c rest s next behind token htoken ih =>
    rcases List.mem_cons.mp h with heq | h
    · obtain rfl : Token.word name = token := (Located.mk.inj heq).1
      obtain ⟨-, hnode, -⟩ | ⟨other, hnode, hname⟩ | ⟨-, hplain⟩ := scan_token htoken
      · exact absurd hnode (by simp)
      · obtain rfl := Token.word.inj hnode
        exact hname
      · exact absurd rfl (hplain name)
    · exact ih h
  | case3 offset c rest s next behind hnone ih => exact ih h

theorem mem_splitLines {eof : Nat} {ts : List Lexeme} {line : TokenLine} (h : line ∈ splitLines eof ts)
    {t : Lexeme} (ht : t ∈ line.content) : t ∈ ts := by
  induction ts generalizing line with
  | nil => simp [splitLines] at h
  | cons u rest ih =>
    rw [splitLines] at h
    split at h
    · rcases List.mem_cons.mp h with rfl | h
      · simp at ht
      · exact List.mem_cons_of_mem _ (ih h ht)
    · split at h
      · obtain rfl := List.mem_singleton.mp h
        obtain rfl := List.mem_singleton.mp ht
        exact List.mem_cons_self
      · next first lines hlines =>
        rcases List.mem_cons.mp h with rfl | h
        · rcases List.mem_cons.mp ht with rfl | ht
          · exact List.mem_cons_self
          · exact List.mem_cons_of_mem _ (ih (by rw [hlines]; exact List.mem_cons_self) ht)
        · exact List.mem_cons_of_mem _ (ih (by rw [hlines]; exact List.mem_cons_of_mem _ h) ht)

theorem mem_enterLine {levels : List Nat} {width start first : Nat} {t : Lexeme}
    (h : t ∈ (enterLine levels width start first).1) :
    ∃ m span, t = mark m span ∧ m ≠ .newline ∧ m ≠ .blankLine := by
  have hclosed : ∀ (closed : List Nat), t ∈ closed.map (fun _ => mark .dedent ⟨first, first⟩) →
      ∃ m span, t = mark m span ∧ m ≠ .newline ∧ m ≠ .blankLine := by
    intro closed hmem
    obtain ⟨level, -, rfl⟩ := List.mem_map.mp hmem
    exact ⟨_, _, rfl, by simp⟩
  rw [enterLine] at h
  split at h
  · exact ⟨_, _, List.mem_singleton.mp h, by simp⟩
  · dsimp only at h
    split at h
    · exact hclosed _ h
    · rcases List.mem_append.mp h with h | h
      · exact hclosed _ h
      · exact ⟨_, _, List.mem_singleton.mp h, by simp⟩

theorem mem_layOut {index : LineIndex} {tab : Nat} {levels : List Nat} {lines : List TokenLine} {t : Lexeme}
    (h : t ∈ layOut index tab levels lines) (ht : t.node.isLayout = false) :
    ∃ line ∈ lines, t ∈ line.content := by
  induction lines generalizing levels with
  | nil =>
    rw [layOut] at h
    obtain ⟨level, -, rfl⟩ := List.mem_map.mp h
    exact absurd ht (by simp [mark, isLayout])
  | cons line lines ih =>
    have hrest : ∀ levels, t ∈ layOut index tab levels lines → ∃ l ∈ line :: lines, t ∈ l.content := by
      intro levels hmem
      obtain ⟨found, hfound, hcontent⟩ := ih hmem
      exact ⟨found, List.mem_cons_of_mem _ hfound, hcontent⟩
    rw [layOut] at h
    split at h
    · rcases List.mem_cons.mp h with rfl | h
      · exact absurd ht (by simp [mark, isLayout])
      · exact hrest _ h
    · rcases List.mem_append.mp h with h | h
      · rcases List.mem_append.mp h with h | h
        · obtain ⟨m, span, rfl, -⟩ := mem_enterLine h
          exact absurd ht (by simp [mark, isLayout])
        · exact ⟨line, List.mem_cons_self, h⟩
      · rcases List.mem_cons.mp h with rfl | h
        · exact absurd ht (by simp [mark, isLayout])
        · exact hrest _ h

/-- The words of a source are made of name characters. -/
theorem isName_of_mem_tokens {source : Source} {tabWidth : Nat} {name : String} {span : Span}
    (h : ⟨.word name, span⟩ ∈ tokens source tabWidth) : IsName name := by
  obtain ⟨line, hline, hcontent⟩ := mem_layOut h rfl
  exact mem_lexemes (mem_splitLines hline hcontent)

namespace IsName
variable {name : String}

theorem ne_empty (h : IsName name) : name ≠ "" := by
  rintro rfl
  exact h.1 rfl

theorem isBlank_eq_false {c : Char} (h : isNamePart c = true) : isBlank c = false := by
  have hbetween : ∀ {lo hi : Char}, 0x20 < lo.toNat → hi.toNat < 0x80 → lo.val ≤ c.val ∧ c.val ≤ hi.val →
      0x20 < c.toNat ∧ c.toNat < 0x80 := by
    rintro lo hi hlo hhi ⟨hc, hc'⟩
    exact ⟨Nat.lt_of_lt_of_le hlo hc, Nat.lt_of_le_of_lt hc' hhi⟩
  have hrange : 0x20 < c.toNat ∧ c.toNat < 0x80 := by
    rcases Bool.or_eq_true_iff.mp h with hletter | hunderscore
    · rcases Bool.or_eq_true_iff.mp hletter with halpha | hdigit
      · rcases Bool.or_eq_true_iff.mp halpha with hupper | hlower
        · exact hbetween (by decide) (by decide) (of_decide_eq_true hupper)
        · obtain ⟨hlo, hhi⟩ := Bool.and_eq_true_iff.mp hlower
          exact hbetween (by decide) (by decide) ⟨of_decide_eq_true hlo, of_decide_eq_true hhi⟩
      · obtain ⟨hlo, hhi⟩ := Bool.and_eq_true_iff.mp hdigit
        exact hbetween (by decide) (by decide) ⟨of_decide_eq_true hlo, of_decide_eq_true hhi⟩
    · rw [eq_of_beq hunderscore]
      decide
  simp only [isBlank, Bool.or_eq_false_iff, Bool.and_eq_false_iff, decide_eq_false_iff_not,
    beq_eq_false_iff_ne]
  omega

/-- Nothing is blank around a word. -/
theorem trimString_eq (h : IsName name) : trimString name = name := by
  have hplain : ∀ c ∈ name.toList, isBlank c = false := fun c hc => isBlank_eq_false (h.2 c hc)
  rw [trimString, trim_eq_self (fun c hc => hplain c (List.mem_of_mem_head? hc))
    fun c hc => hplain c (List.mem_of_mem_getLast? hc), String.ofList_toList]

theorem colon_not_mem (h : IsName name) : ':' ∉ name.toList := by
  intro hmem
  exact absurd (h.2 _ hmem) (by decide)

end IsName

theorem isBlank_eq_false_of_isDigit {c : Char} (h : c.isDigit = true) : isBlank c = false :=
  IsName.isBlank_eq_false (by simp [isNamePart, Char.isAlphanum, h])

end BranchingStory.Token
