import BranchingStory.Proofs.Token.Placement

/-! # The shape of the tokens of a source

The marks of the layout pass keep to a form: a line that holds tokens ends with a line feed, and every
indentation is closed again, at the latest behind the last line. -/

namespace BranchingStory
open Token
set_option autoImplicit false

/-! ## Tokens that are no marks -/

/-- The tokens that are no layout marks. -/
def proper (ts : List Lexeme) : List Lexeme := ts.filter (!·.node.isLayout)

theorem proper_append (ts us : List Lexeme) : proper (ts ++ us) = proper ts ++ proper us :=
  List.filter_append ..

theorem proper_of_words {ts : List Lexeme} (h : ∀ t ∈ ts, t.node.isLayout = false) : proper ts = ts :=
  List.filter_eq_self.mpr fun t ht => by rw [h t ht]; rfl

theorem proper_line {words : List Lexeme} {stop : Span} (h : ∀ t ∈ words, t.node.isLayout = false) :
    proper (words ++ [mark .newline stop]) = words := by
  rw [proper_append, proper_of_words h]
  exact List.append_nil words

theorem isLayout_of_mem_marks (m : Layout) (spans : List Span) :
    ∀ t ∈ spans.map (mark m), t.node.isLayout = true := by
  intro t ht
  obtain ⟨span, -, rfl⟩ := List.mem_map.mp ht
  rfl

theorem proper_of_marks {ts : List Lexeme} (h : ∀ t ∈ ts, t.node.isLayout = true) : proper ts = [] :=
  List.filter_eq_nil_iff.mpr fun t ht => by rw [h t ht]; simp

/-! ## The same tokens elsewhere -/

/-- Are these the same tokens, perhaps in other places? -/
def Alike (ts us : List Lexeme) : Prop := ts.map (·.node) = us.map (·.node)

instance (ts us : List Lexeme) : Decidable (Alike ts us) := inferInstanceAs (Decidable (_ = _))

namespace Alike
variable {ts us vs : List Lexeme} {t u : Lexeme}

theorem exists_cons (h : Alike ts (u :: us)) : ∃ t rest, ts = t :: rest ∧ t.node = u.node ∧ Alike rest us :=
  List.map_eq_cons_iff.mp h

theorem exists_append (h : Alike ts (us ++ vs)) : ∃ front rest, ts = front ++ rest ∧ Alike front us ∧
    Alike rest vs := by
  rw [Alike, List.map_append] at h
  exact List.map_eq_append_iff.mp h

theorem eq_nil (h : Alike ts []) : ts = [] := List.map_eq_nil_iff.mp h

theorem cons (h : t.node = u.node) (hmore : Alike ts us) : Alike (t :: ts) (u :: us) := by
  rw [Alike, List.map_cons, List.map_cons, h, hmore]

theorem append {ws : List Lexeme} (h : Alike ts us) (hmore : Alike vs ws) : Alike (ts ++ vs) (us ++ ws) := by
  rw [Alike, List.map_append, List.map_append, h, hmore]

end Alike

end BranchingStory

namespace BranchingStory.Token
open Text

/-! ## Lines and the marks between them -/

theorem isNewline_eq_false {t : Token} (h : t.isLayout = false) : t.isNewline = false := by
  cases t with
  | layout m => exact absurd h (by simp [isLayout])
  | _ => rfl

/-- Tokens that are left while `n` indentations are open. -/
inductive Shaped : Nat → List Lexeme → Prop
  | done : Shaped 0 []
  | dedent {n : Nat} {span : Span} {rest : List Lexeme} (h : Shaped n rest) :
      Shaped (n + 1) (mark .dedent span :: rest)
  | indent {n : Nat} {span : Span} {rest : List Lexeme} (h : Shaped (n + 1) rest) :
      Shaped n (mark .indent span :: rest)
  | indentError {n : Nat} {span : Span} {rest : List Lexeme} (h : Shaped n rest) :
      Shaped n (mark .indentError span :: rest)
  | blankLine {n : Nat} {span : Span} {rest : List Lexeme} (h : Shaped n rest) :
      Shaped n (mark .blankLine span :: rest)
  | line {n : Nat} {words : List Lexeme} {stop : Span} {rest : List Lexeme} (hne : words ≠ [])
      (hproper : ∀ t ∈ words, t.node.isLayout = false) (h : Shaped n rest) :
      Shaped n (words ++ mark .newline stop :: rest)

/-- Behind a mark the last token is a mark if it is one of what is left. -/
theorem isLayout_getLast_append {m : Layout} {span : Span} {front rest : List Lexeme}
    (h : ∀ t ∈ rest.getLast?, t.node.isLayout = true) :
    ∀ t ∈ (front ++ mark m span :: rest).getLast?, t.node.isLayout = true := by
  intro t ht
  rw [List.getLast?_append, List.getLast?_cons, Option.some_or] at ht
  cases hlast : rest.getLast? with
  | none =>
    rw [hlast] at ht
    obtain rfl : mark m span = t := Option.some.inj ht
    rfl
  | some u =>
    rw [hlast] at ht
    exact h t (hlast.trans ht)

theorem isLayout_getLast_cons {m : Layout} {span : Span} {rest : List Lexeme}
    (h : ∀ t ∈ rest.getLast?, t.node.isLayout = true) :
    ∀ t ∈ (mark m span :: rest).getLast?, t.node.isLayout = true := by
  have hlast : ∀ t ∈ ([] ++ mark m span :: rest).getLast?, t.node.isLayout = true := isLayout_getLast_append h
  exact hlast

/-- Tokens with a shape end with a mark, if there are any. -/
theorem Shaped.isLayout_getLast {n : Nat} {ts : List Lexeme} (h : Shaped n ts) :
    ∀ t ∈ ts.getLast?, t.node.isLayout = true := by
  induction h with
  | done => simp
  | line hne hproper h ih => exact isLayout_getLast_append ih
  | dedent h ih | indent h ih | indentError h ih | blankLine h ih => exact isLayout_getLast_cons ih

theorem shaped_dedents (levels : List Nat) (span : Span) {n : Nat} {rest : List Lexeme} (h : Shaped n rest) :
    Shaped (levels.length + n) ((levels.map fun _ => mark .dedent span) ++ rest) := by
  induction levels with
  | nil => rwa [List.length_nil, Nat.zero_add]
  | cons level levels ih =>
    rw [List.length_cons, Nat.succ_add]
    exact .dedent ih

theorem shaped_enterLine {levels : List Nat} {width start first : Nat} {rest : List Lexeme}
    (h : Shaped (enterLine levels width start first).2.length rest) :
    Shaped levels.length ((enterLine levels width start first).1 ++ rest) := by
  have hlevels : levels.length =
      (levels.takeWhile (width < ·)).length + (levels.dropWhile (width < ·)).length := by
    rw [← List.length_append, List.takeWhile_append_dropWhile]
  rw [enterLine] at h ⊢
  split at h
  · next hdeeper =>
    rw [if_pos hdeeper]
    exact .indent h
  next hdeeper =>
  rw [if_neg hdeeper]
  dsimp only at h ⊢
  split at h
  · next hmet =>
    rw [if_pos hmet, hlevels]
    exact shaped_dedents _ _ h
  · next hmet =>
    rw [if_neg hmet, hlevels, List.append_assoc]
    exact shaped_dedents _ _ (.indentError h)

theorem shaped_layOut (index : LineIndex) (tab : Nat) (levels : List Nat) {lines : List TokenLine}
    (h : ∀ line ∈ lines, ∀ t ∈ line.content, t.node.isLayout = false) :
    Shaped levels.length (layOut index tab levels lines) := by
  induction lines generalizing levels with
  | nil =>
    rw [layOut]
    simpa using shaped_dedents levels ⟨index.length, index.length⟩ .done
  | cons line lines ih =>
    obtain ⟨hline, hlines⟩ := List.forall_mem_cons.mp h
    rw [layOut]
    split
    · exact .blankLine (ih levels hlines)
    · next first others hcontent =>
      dsimp only
      rw [List.append_assoc]
      exact shaped_enterLine (.line (by simp [hcontent]) hline (ih _ hlines))

theorem LinesChained.proper {text : List Char} {offset : Nat} {lines : List TokenLine}
    (h : LinesChained text offset lines) : ∀ line ∈ lines, ∀ t ∈ line.content, t.node.isLayout = false := by
  induction lines generalizing offset with
  | nil => simp
  | cons line lines ih =>
    obtain ⟨hline, -, -, -, -, -, hlines⟩ := h
    exact List.forall_mem_cons.mpr ⟨hline, ih hlines⟩

/-- The tokens of a source close every indentation that they open, and end every line that they begin. -/
theorem shaped_tokens (source : Source) (tabWidth : Nat) : Shaped 0 (tokens source tabWidth) := by
  have hlines := linesChained_splitLines (chained_lexemes [] source.text)
  rw [tokens, source.length_eq]
  exact shaped_layOut _ _ [] hlines.proper

/-! ## Cases of a shape -/

variable {n : Nat} {t : Lexeme} {rest : List Lexeme}

theorem Shaped.eq_zero (h : Shaped n []) : n = 0 := by
  generalize hts : [] = ts at h
  cases h with
  | done => rfl
  | line hne => exact absurd hts (by simp)
  | _ => exact absurd hts (by simp)

/-- How the tokens go on behind the first one. -/
theorem Shaped.cons_cases (h : Shaped n (t :: rest)) :
    (t.node = .layout .dedent ∧ ∃ m, n = m + 1 ∧ Shaped m rest) ∨
      (t.node = .layout .indent ∧ Shaped (n + 1) rest) ∨
      ((t.node = .layout .indentError ∨ t.node = .layout .blankLine) ∧ Shaped n rest) ∨
      (t.node.isLayout = false ∧ ∃ words stop behind, rest = words ++ mark .newline stop :: behind ∧
        (∀ u ∈ words, u.node.isLayout = false) ∧ Shaped n behind) := by
  generalize hts : t :: rest = ts at h
  cases h with
  | done => exact absurd hts (by simp)
  | dedent h =>
    obtain ⟨rfl, rfl⟩ := List.cons.inj hts
    exact .inl ⟨rfl, _, rfl, h⟩
  | indent h =>
    obtain ⟨rfl, rfl⟩ := List.cons.inj hts
    exact .inr (.inl ⟨rfl, h⟩)
  | indentError h =>
    obtain ⟨rfl, rfl⟩ := List.cons.inj hts
    exact .inr (.inr (.inl ⟨.inl rfl, h⟩))
  | blankLine h =>
    obtain ⟨rfl, rfl⟩ := List.cons.inj hts
    exact .inr (.inr (.inl ⟨.inr rfl, h⟩))
  | @line _ words stop behind hne hproper h =>
    cases words with
    | nil => exact absurd rfl hne
    | cons u words =>
      obtain ⟨rfl, rfl⟩ := List.cons.inj hts
      obtain ⟨ht, hwords⟩ := List.forall_mem_cons.mp hproper
      exact .inr (.inr (.inr ⟨ht, words, stop, behind, rfl, hwords, h⟩))

/-- Behind a mark some number of indentations is open. -/
theorem Shaped.of_mark (h : Shaped n (t :: rest)) (ht : t.node.isLayout = true) : ∃ m, Shaped m rest := by
  obtain ⟨-, m, -, hrest⟩ | ⟨-, hrest⟩ | ⟨-, hrest⟩ | ⟨hproper, -⟩ := h.cons_cases
  · exact ⟨m, hrest⟩
  · exact ⟨n + 1, hrest⟩
  · exact ⟨n, hrest⟩
  · exact absurd ht (by simp [hproper])

/-- A proper token begins a line. -/
theorem Shaped.of_proper (h : Shaped n (t :: rest)) (ht : t.node.isLayout = false) :
    ∃ words stop behind, rest = words ++ mark .newline stop :: behind ∧ (∀ u ∈ words, u.node.isLayout = false) ∧
      Shaped n behind := by
  obtain ⟨hnode, -⟩ | ⟨hnode, -⟩ | ⟨hnode | hnode, -⟩ | ⟨-, hline⟩ := h.cons_cases
  · simp [hnode, isLayout] at ht
  · simp [hnode, isLayout] at ht
  · simp [hnode, isLayout] at ht
  · simp [hnode, isLayout] at ht
  · exact hline

theorem Shaped.of_dedent {span : Span} (h : Shaped (n + 1) (mark .dedent span :: rest)) : Shaped n rest := by
  obtain ⟨-, m, hm, hrest⟩ | ⟨hnode, -⟩ | ⟨hnode | hnode, -⟩ | ⟨hproper, -⟩ := h.cons_cases
  · rwa [Nat.succ.inj hm]
  · exact absurd hnode (by simp [mark])
  · exact absurd hnode (by simp [mark])
  · exact absurd hnode (by simp [mark])
  · exact absurd hproper (by simp [mark, isLayout])

theorem Shaped.of_indent {span : Span} (h : Shaped n (mark .indent span :: rest)) : Shaped (n + 1) rest := by
  obtain ⟨hnode, -⟩ | ⟨-, hrest⟩ | ⟨hnode | hnode, -⟩ | ⟨hproper, -⟩ := h.cons_cases
  · exact absurd hnode (by simp [mark])
  · exact hrest
  · exact absurd hnode (by simp [mark])
  · exact absurd hnode (by simp [mark])
  · exact absurd hproper (by simp [mark, isLayout])

theorem Shaped.of_blanks {blanks : List Span} (h : Shaped n (blanks.map (mark .blankLine) ++ rest)) :
    Shaped n rest := by
  induction blanks with
  | nil => exact h
  | cons span blanks ih =>
    obtain ⟨hnode, -⟩ | ⟨hnode, -⟩ | ⟨-, hrest⟩ | ⟨hproper, -⟩ := h.cons_cases
    · exact absurd hnode (by simp [mark])
    · exact absurd hnode (by simp [mark])
    · exact ih hrest
    · exact absurd hproper (by simp [mark, isLayout])

end BranchingStory.Token
