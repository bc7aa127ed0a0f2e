import BranchingStory.Proofs.Token.Rows
import BranchingStory.Proofs.Token.Scanning

/-! # Gaps between tokens

A source is its tokens and the gaps between them: what is passed over is white space, line feeds, comments up to
the end of their line, and block comments that are closed. So scanning loses no text and invents none. -/

namespace BranchingStory.Token
open Text
set_option autoImplicit false

/-! ## Gaps -/

/-- Text without a token in front of `behind`: white space, line feeds, comments that go up to the end of their
line, and block comments that are closed. -/
inductive IsGap (behind : List Char) : List Char → Prop
  | nil : IsGap behind []
  | blank {c : Char} {gap : List Char} (hc : isSkippable c = true ∨ c = '\n') (h : IsGap behind gap) :
      IsGap behind (c :: gap)
  | lineComment {comment gap : List Char} (hline : '\n' ∉ comment) (hend : ∀ c ∈ (gap ++ behind).head?, c = '\n')
      (h : IsGap behind gap) : IsGap behind ('/' :: '/' :: comment ++ gap)
  | blockComment {comment gap : List Char} (hcomment : Unclosed comment) (h : IsGap behind gap) :
      IsGap behind ('/' :: '*' :: comment ++ '*' :: '/' :: gap)

variable {behind gap : List Char}

theorem IsGap.blanks {blanks : List Char} (h : IsGap behind gap) (hblanks : ∀ c ∈ blanks, isSkippable c = true) :
    IsGap behind (blanks ++ gap) := by
  induction blanks with
  | nil => exact h
  | cons c blanks ih =>
    obtain ⟨hc, hblanks⟩ := List.forall_mem_cons.mp hblanks
    exact .blank (.inl hc) (ih hblanks)

variable {c : Char} {rest : List Char}

/-- A comment that is passed over can stand in front of a gap. -/
theorem IsGap.comment {s : Scan} (hscan : scanComment? c rest = some s) (hnone : s.token? = none)
    (h : IsGap behind gap) (hrest : rest.drop s.more = gap ++ behind) :
    IsGap behind (c :: rest.take s.more ++ gap) := by
  rw [scanComment?.eq_def] at hscan
  split at hscan
  · next text =>
    obtain rfl := Option.some.inj hscan
    obtain ⟨comment, line, rfl, hcomment, hall, hend⟩ := exists_run (· != '\n') text
    dsimp only at hrest ⊢
    rw [hcomment, Nat.add_comm] at hrest ⊢
    rw [List.drop_succ_cons, List.drop_left] at hrest
    rw [List.take_succ_cons, List.take_left]
    subst hrest
    exact .lineComment (fun hmem => by simpa using hall _ hmem) (fun d hd => by simpa using hend d hd) h
  · split at hscan
    · next text n hn =>
      obtain rfl := Option.some.inj hscan
      obtain ⟨comment, closed, rfl, rfl, hcomment⟩ := commentLength?_eq_some_iff.mp hn
      have hlength : 1 + (comment.length + 2) = ('*' :: (comment ++ ['*', '/'])).length := by
        simp [Nat.add_comm]
      have hsplit : '*' :: (comment ++ '*' :: '/' :: closed) = '*' :: (comment ++ ['*', '/']) ++ closed := by simp
      dsimp only at hrest ⊢
      rw [hsplit, hlength] at hrest ⊢
      rw [List.drop_left] at hrest
      rw [List.take_left]
      simpa using IsGap.blockComment hcomment h
    · obtain rfl := Option.some.inj hscan
      exact absurd hnone (by simp)
  · exact absurd hscan (by simp)

/-- What is passed over can stand in front of a gap. -/
theorem IsGap.passed (hnone : (scan c rest).token? = none) (h : IsGap behind gap)
    (hrest : rest.drop (scan c rest).more = gap ++ behind) :
    IsGap behind (c :: rest.take (scan c rest).more ++ gap) := by
  revert hnone hrest
  refine scan_cases (motive := fun s => s.token? = none → rest.drop s.more = gap ++ behind →
    IsGap behind (c :: rest.take s.more ++ gap)) ?blanks ?lineFeed ?word ?number ?string ?comment ?symbol ?unknown
  case blanks =>
    intro hskip _ _
    rw [← List.prefix_iff_eq_take.mp (List.takeWhile_prefix _)]
    exact h.blanks (List.forall_mem_cons.mpr ⟨hskip, List.all_eq_true.mp List.all_takeWhile⟩)
  case comment => exact fun s hs hnone hrest => h.comment hs hnone hrest
  case string =>
    intro _ hnone
    obtain ⟨t, ht⟩ := exists_of_scanString rest
    exact absurd (hnone.symm.trans ht) (by simp)
  all_goals
    intros
    simp_all [scanNumber]

/-! ## Tokens and their text -/

/-- Is the token written like this? A string literal stands for the text between its quotes with the escapes
resolved, every other token for what is written. -/
def Spells : Token → List Char → Prop
  | .layout _, _ => False
  | .string content, text =>
    ∃ interior, text = '"' :: (interior ++ ['"']) ∧ content = String.ofList (resolve interior)
  | t, text => text = t.display.toList

theorem spells_string {t : Token} (h : (scanString rest).token? = some t) :
    Spells t ('"' :: rest.take (scanString rest).more) := by
  rw [scanString] at h ⊢
  split at h
  · next behind hquote =>
    obtain rfl := Option.some.inj h
    refine ⟨rest.take (literalLength rest), ?_, rfl⟩
    rw [List.take_add, hquote]
    rfl
  · obtain rfl := Option.some.inj h
    exact String.toList_ofList.symm

theorem spells_comment {s : Scan} {t : Token} (hscan : scanComment? c rest = some s) (h : s.token? = some t) :
    Spells t (c :: rest.take s.more) := by
  rw [scanComment?.eq_def] at hscan
  split at hscan
  · obtain rfl := Option.some.inj hscan
    exact absurd h (by simp)
  · split at hscan
    · obtain rfl := Option.some.inj hscan
      exact absurd h (by simp)
    · obtain rfl := Option.some.inj hscan
      obtain rfl := Option.some.inj h
      rw [List.take_length]
      exact String.toList_ofList.symm
  · exact absurd hscan (by simp)

/-- A scanned token is written as the text that it takes up, unless it is a line feed. -/
theorem spells_scan {t : Token} (h : (scan c rest).token? = some t) (hproper : t.isLayout = false) :
    Spells t (c :: rest.take (scan c rest).more) := by
  revert h
  refine scan_cases (motive := fun s => s.token? = some t → Spells t (c :: rest.take s.more))
    ?blanks ?lineFeed ?word ?number ?string ?comment ?symbol ?unknown
  case blanks => exact fun _ h => absurd h (by simp)
  case lineFeed =>
    rintro - ⟨⟩
    exact absurd hproper (by simp [isLayout])
  case word =>
    rintro - ⟨⟩
    rw [← List.prefix_iff_eq_take.mp (List.takeWhile_prefix _)]
    exact String.toList_ofList.symm
  case number =>
    rintro - ⟨⟩
    exact String.toList_ofList.symm
  case string =>
    rintro rfl h
    exact spells_string h
  case comment => exact fun s hs h => spells_comment hs h
  case symbol =>
    rintro s n hs ⟨⟩
    exact symbol?_spelling hs
  case unknown =>
    rintro ⟨⟩
    exact String.toList_ofList.symm

/-! ## Tokens and gaps -/

/-- The text from the offset on is the tokens, each with its own text, and gaps in front of them, between them and
behind them. -/
inductive Cut : Nat → List Char → List Lexeme → Prop
  | done {offset : Nat} {gap : List Char} (hgap : IsGap [] gap) : Cut offset gap []
  | token {offset start : Nat} {gap text behind : List Char} {t : Token} {ts : List Lexeme}
      (hgap : IsGap (text ++ behind) gap) (hstart : start = offset + byteLength gap) (hne : text ≠ [])
      (htext : Spells t text) (h : Cut (start + byteLength text) behind ts) :
      Cut offset (gap ++ (text ++ behind)) (⟨t, ⟨start, start + byteLength text⟩⟩ :: ts)

/-- A text that can stand in front of every gap can stand in front of a cut. -/
theorem Cut.passed {offset : Nat} {text front : List Char} {ts : List Lexeme}
    (h : Cut (offset + byteLength front) text ts)
    (hfront : ∀ gap behind, text = gap ++ behind → IsGap behind gap → IsGap behind (front ++ gap)) :
    Cut offset (front ++ text) ts := by
  cases h with
  | done hgap => exact .done (hfront _ [] (List.append_nil _).symm hgap)
  | token hgap hstart hne htext h =>
    rw [← List.append_assoc]
    refine .token (hfront _ _ rfl hgap) ?_ hne htext h
    rw [hstart, byteLength_append, Nat.add_assoc]

/-- Scanning cuts a text into its tokens and the gaps between them. -/
theorem cut_lexemes (offset : Nat) (text : List Char) : Cut offset text (proper (lexemes offset text)) := by
  fun_induction lexemes offset text with
  | case1 => exact .done .nil
  | case2 offset c rest s next behind token htoken ih =>
    rw [← List.take_append_drop s.more rest, ← List.cons_append]
    obtain ⟨rfl, rfl, hmore⟩ | hproper := scan_lineFeed_or_proper htoken
    · refine ih.passed fun gap behind hrest hgap => ?_
      rw [hmore]
      exact .blank (.inr rfl) hgap
    · rw [proper, List.filter_cons_of_pos (by simp [hproper])]
      exact .token .nil rfl (List.cons_ne_nil _ _) (spells_scan htoken hproper) ih
  | case3 offset c rest s next behind hnone ih =>
    rw [← List.take_append_drop s.more rest, ← List.cons_append]
    exact ih.passed fun gap behind hrest hgap => hgap.passed hnone hrest

theorem proper_scanned (ts : List Lexeme) : proper (scanned ts) = proper ts := by
  induction ts with
  | nil => rfl
  | cons t ts ih =>
    obtain ⟨node, span⟩ := t
    cases node with
    | layout m => cases m <;> exact ih
    | _ => exact congrArg (List.cons _) ih

/-- The layout pass neither drops nor adds a token that is no mark. -/
theorem proper_tokens (s : Source) (tabWidth : Nat) : proper (tokens s tabWidth) = proper (lexemes 0 s.text) := by
  obtain ⟨ends, hscanned, hends⟩ := scanned_tokens s tabWidth
  rw [← proper_scanned, hscanned, proper_append, proper_of_marks hends, List.append_nil]

/-! ## What a cut says of the tokens -/

section Source
variable {s : Source} {offset : Nat} {text : List Char} {ts : List Lexeme}

/-- Does the token stand in the source with its text? -/
structure Stands (s : Source) (t : Lexeme) : Prop where
  start_lt_stop : t.span.start < t.span.stop
  stop_le : t.span.stop ≤ s.length
  start : IsBoundary s.text t.span.start
  stop : IsBoundary s.text t.span.stop
  text : ∃ text, s.slice? t.span = some text ∧ Spells t.node text

theorem Cut.stands (h : Cut offset text ts) (hholds : s.Holds offset text) : ∀ t ∈ ts, Stands s t := by
  induction h with
  | done => simp
  | @token offset start gap text behind t ts hgap hstart hne htext h ih =>
    subst hstart
    have htoken := hholds.rest.front
    have hbehind := hholds.rest.rest
    have hpos : 0 < byteLength text := Nat.lt_of_lt_of_le (List.length_pos_of_ne_nil hne) (length_le_byteLength text)
    exact List.forall_mem_cons.mpr ⟨⟨Nat.lt_add_of_pos_right hpos, htoken.le_length, htoken.isBoundary,
      hbehind.isBoundary, text, htoken.slice?_eq, htext⟩, ih hbehind⟩

theorem Cut.start_le (h : Cut offset text ts) : ∀ t ∈ ts, offset ≤ t.span.start := by
  induction h with
  | done => simp
  | token hgap hstart hne htext h ih =>
    subst hstart
    have hle := Nat.le_add_right
    exact List.forall_mem_cons.mpr ⟨hle _ _, fun u hu => Nat.le_trans (hle _ _) (Nat.le_trans (hle _ _) (ih u hu))⟩

theorem Cut.disjoint (h : Cut offset text ts) : ts.Pairwise fun t u => t.span.stop ≤ u.span.start := by
  induction h with
  | done => exact .nil
  | token hgap hstart hne htext h ih => exact .cons h.start_le ih

/-- The tokens of a source that are no marks stand in it one behind the other, each with its own text, and between
them, in front of the first and behind the last there is nothing but white space, line feeds and comments. -/
theorem tokens_cover_source (s : Source) (tabWidth : Nat) :
    (∀ t ∈ proper (tokens s tabWidth), Stands s t) ∧
      (proper (tokens s tabWidth)).Pairwise (fun t u => t.span.stop ≤ u.span.start) ∧
      Cut 0 s.text (proper (tokens s tabWidth)) := by
  have hcut := cut_lexemes 0 s.text
  have hholds : s.Holds 0 s.text := ⟨[], [], (List.append_nil _).symm, rfl⟩
  rw [proper_tokens]
  exact ⟨hcut.stands hholds, hcut.disjoint, hcut⟩

end Source

end BranchingStory.Token
