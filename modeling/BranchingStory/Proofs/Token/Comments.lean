import BranchingStory.Proofs.Token.Margins
import BranchingStory.Proofs.Token.Pieces

/-! # The text of comments

A block comment is passed over whatever it says: the scanned tokens in front of it and behind it are the same for
every text in it. The layout pass measures a line from the last line feed in front of its first token, though, also
if that stands in a comment. So the text of a comment tells in the tokens only where a token follows the comment on
its line, none stands in front of it there, and the comment goes over several lines. -/

namespace BranchingStory.Token
open Text
set_option autoImplicit false

/-! ## Comments in a text -/

/-- A block comment with the text. -/
def comment (text : List Char) : List Char := '/' :: '*' :: (text ++ ['*', '/'])

/-- Does a block comment open behind the text, if `other` stands behind the opening? -/
def OpensComment (front other : List Char) : Prop :=
  ∃ p ∈ pieces 0 (front ++ '/' :: '*' :: other), p.start = byteLength front

instance (front other : List Char) : Decidable (OpensComment front other) :=
  inferInstanceAs (Decidable (∃ p ∈ pieces _ _, _))

theorem scan_comment {text : List Char} (h : Unclosed text) (behind : List Char) :
    scan '/' ('*' :: (text ++ ['*', '/']) ++ behind) = ⟨none, ('*' :: (text ++ ['*', '/'])).length⟩ := by
  have hlength : commentLength? (text ++ ['*', '/'] ++ behind) = some (text.length + 2) :=
    commentLength?_eq_some_iff.mpr ⟨text, behind, by simp, rfl, h⟩
  rw [scan, if_neg (by decide), if_neg (by decide), if_neg (by decide), if_neg (by decide), if_neg (by decide),
    List.cons_append, scanComment?, hlength]
  simp [Nat.add_comm]

theorem lexemes_comment {text : List Char} (h : Unclosed text) (offset : Nat) (behind : List Char) :
    lexemes offset (comment text ++ behind) = lexemes (offset + byteLength (comment text)) behind := by
  rw [comment, List.cons_append, lexemes, scan_comment h, List.take_left, List.drop_left]

theorem lexemes_blank {c : Char} (hc : isSkippable c = true) (offset : Nat) (rest : List Char) :
    lexemes offset (c :: rest) = lexemes (offset + c.utf8Size) rest := by
  obtain ⟨run, behind, rfl, htake, hrun, hbehind⟩ := exists_run isSkippable rest
  have hpassed : ∀ {offset : Nat} {d : Char} {blanks : List Char}, isSkippable d = true →
      (∀ e ∈ blanks, isSkippable e = true) → lexemes offset (d :: (blanks ++ behind)) =
        lexemes (offset + byteLength (d :: blanks)) behind := by
    intro offset d blanks hd hblanks
    rw [lexemes, scan, if_pos hd, takeWhile_append hblanks hbehind]
    simp only [List.take_left, List.drop_left]
  rw [hpassed hc hrun, byteLength_cons, ← Nat.add_assoc]
  cases run with
  | nil => rfl
  | cons d run =>
    obtain ⟨hd, hmore⟩ := List.forall_mem_cons.mp hrun
    exact (hpassed hd hmore).symm

/-- A comment that two slashes begin goes on to the end of its line. -/
theorem scan_lineComment {text behind : List Char} (h : '\n' ∉ text) (hbehind : ∀ c ∈ behind.head?, c = '\n') :
    scan '/' ('/' :: text ++ behind) = ⟨none, ('/' :: text).length⟩ := by
  have hline : (text ++ behind).takeWhile (· != '\n') = text :=
    takeWhile_append (fun c hc => by simpa using ne_of_mem_of_not_mem hc h) fun c hc => by simp [hbehind c hc]
  refine scan_of_comment ?_
  rw [List.cons_append, scanComment?, hline, List.length_cons, Nat.add_comm]

theorem lexemes_lineComment {text : List Char} (h : '\n' ∉ text) (offset : Nat) (behind : List Char) :
    lexemes offset ('/' :: '/' :: (text ++ '\n' :: behind)) =
      lexemes (offset + byteLength ('/' :: '/' :: text)) ('\n' :: behind) := by
  have hscan : scan '/' ('/' :: (text ++ '\n' :: behind)) = ⟨none, ('/' :: text).length⟩ :=
    scan_lineComment h (by simp)
  rw [lexemes, hscan, ← List.cons_append, List.take_left, List.drop_left]

/-- Where a piece begins at a character that cuts, the tokens in front of it are those of the text in front of it. -/
theorem Cuts.lexemes_append {d : Char} (hd : Cuts d) {offset : Nat} {front behind : List Char}
    (h : ∃ p ∈ pieces offset (front ++ d :: behind), p.start = offset + byteLength front) (other : List Char) :
    lexemes offset (front ++ d :: other) =
      lexemes offset front ++ lexemes (offset + byteLength front) (d :: other) := by
  induction front using scan_induction generalizing offset with
  | nil => rw [lexemes.eq_def offset []]; rfl
  | piece c rest ih =>
    obtain ⟨p, hp, hstart⟩ := h
    rw [List.cons_append, pieces] at hp
    have hpos : 0 < c.utf8Size := c.utf8Size_pos
    rw [byteLength_cons] at hstart
    obtain rfl | hp := List.mem_cons.mp hp
    · dsimp only at hstart
      omega
    -- The piece at the front ends before that character, so it is the same without it.
    have hmore : (scan c (rest ++ d :: behind)).more ≤ rest.length := by
      have hbound := ((placed_pieces _ _).bounds hp).1
      rw [byteLength_cons, hstart] at hbound
      by_contra hlt
      have hlong : rest ++ [d] <+: (rest ++ d :: behind).take (scan c (rest ++ d :: behind)).more :=
        List.prefix_take_iff.mpr ⟨⟨behind, by simp⟩, by rw [List.length_append]; exact Nat.not_le.mp hlt⟩
      obtain ⟨more, hmore⟩ := hlong
      have hpos : 0 < d.utf8Size := d.utf8Size_pos
      rw [← hmore, byteLength_append, byteLength_append, byteLength_cons] at hbound
      omega
    have hscan := hd hmore
    rw [hscan behind] at hmore hp
    rw [List.take_append_of_le_length hmore, List.drop_append_of_le_length hmore] at hp
    have hsplit : byteLength (rest.take (scan c rest).more) + byteLength (rest.drop (scan c rest).more) =
        byteLength rest := by rw [← byteLength_append, List.take_append_drop]
    have hrest := ih ⟨p, hp, by rw [byteLength_cons]; omega⟩
    have hbehind : offset + byteLength (c :: rest.take (scan c rest).more) +
        byteLength (rest.drop (scan c rest).more) = offset + byteLength (c :: rest) := by
      rw [byteLength_cons, byteLength_cons]
      omega
    rw [hbehind] at hrest
    rw [List.cons_append, lexemes, hscan, List.take_append_of_le_length hmore, List.drop_append_of_le_length hmore,
      hrest, lexemes.eq_def offset (c :: rest)]
    dsimp only
    split <;> rfl

/-- Tokens are scanned alike wherever their text stands. -/
theorem lexemes_alike (text : List Char) (offset offset' : Nat) :
    Alike (lexemes offset text) (lexemes offset' text) := by
  induction text using scan_induction generalizing offset offset' with
  | nil => rw [lexemes, lexemes]; rfl
  | piece c rest ih =>
    rw [lexemes, lexemes]
    split
    · exact .cons rfl (ih _ _)
    · exact ih _ _

section Comment
variable {front other text : List Char}

theorem OpensComment.lexemes_eq (h : OpensComment front other) (htext : Unclosed text) (behind : List Char) :
    lexemes 0 (front ++ (comment text ++ behind)) =
      lexemes 0 front ++ lexemes (byteLength (front ++ comment text)) behind := by
  obtain ⟨p, hp, hstart⟩ := h
  have hsplit := cuts_slash.lexemes_append ⟨p, hp, hstart.trans (Nat.zero_add _).symm⟩
    ('*' :: (text ++ ['*', '/']) ++ behind)
  have hcomment := lexemes_comment htext (byteLength front) behind
  rw [Nat.zero_add] at hsplit
  rw [byteLength_append, ← hcomment]
  exact hsplit

end Comment

/-! ## The widths of the lines -/

/-- The widths of the lines of a source, those without tokens having none. -/
def lineWidths (s : Source) (tabWidth : Nat) : List Nat :=
  (splitLines s.length (lexemes 0 s.text)).map (·.width s.index (max tabWidth 1))

/-- Sources with the same scanned tokens and the same line widths have the same tokens. -/
theorem tokens_alike {s u : Source} {tabWidth : Nat} (h : Alike (lexemes 0 s.text) (lexemes 0 u.text))
    (hwidths : lineWidths s tabWidth = lineWidths u tabWidth) : Alike (tokens s tabWidth) (tokens u tabWidth) :=
  layOut_alike (splitLines_alike h _ _) hwidths []

/-- Does the comment between the texts stand in front of all tokens of its line, and a token behind it on the line
on which it ends? -/
def Leads (front behind : List Char) : Prop :=
  begunBehind false (lexemes 0 front) = false ∧ ∃ gap ∈ openingGap? behind, '\n' ∉ gap

instance (front behind : List Char) : Decidable (Leads front behind) := inferInstanceAs (Decidable (_ ∧ ∃ _ ∈ _, _))

/-- The margin of a token behind a comment that leads its line: a comment that goes over several lines hides what
stands in front of it. -/
def marginBehind (tab : Nat) (front text : List Char) : Nat :=
  if '\n' ∈ text then margin tab text else margin tab front

section Comment
variable {front other behind first second text gap : List Char}

theorem margin_comment (tab : Nat) (front text : List Char) (h : '\n' ∉ gap) :
    margin tab (front ++ comment text ++ gap) = marginBehind tab front text := by
  have hclose : '\n' ∉ '*' :: '/' :: gap := by simp [h]
  rw [marginBehind]
  split
  · next htext =>
    have hlast : lastLine (front ++ comment text ++ gap) = lastLine text ++ '*' :: '/' :: gap := by
      rw [← lastLine_append_of_not_mem hclose,
        ← lastLine_append_of_mem (List.mem_append_left _ htext) (front ++ ['/', '*'])]
      simp [comment]
    rw [margin, hlast, indentWidth_stop (by decide), margin]
  · next htext =>
    have hwhole : '\n' ∉ comment text ++ gap := by simp [comment, htext, h]
    rw [List.append_assoc, margin, lastLine_append_of_not_mem hwhole, comment, List.cons_append,
      indentWidth_stop (by decide), margin]

theorem lineWidths_comment (h : OpensComment front other) (htext : Unclosed text) (behind : List Char)
    (tabWidth : Nat) : lineWidths { text := front ++ (comment text ++ behind) } tabWidth =
      widths (lineWidth (max tabWidth 1) front) false (lexemes 0 front) ++
        widthsBehind (max tabWidth 1) (front ++ comment text) (begunBehind false (lexemes 0 front)) behind := by
  have hfront : ∀ t ∈ lexemes 0 front, lineWidth (max tabWidth 1) (front ++ (comment text ++ behind)) t =
      lineWidth (max tabWidth 1) front t := by
    intro t ht
    have hmem : t ∈ lexemes (byteLength []) front := ht
    exact lineWidth_append hmem _
  rw [lineWidths, (widths_splitLines _ _ _ _).1, h.lexemes_eq htext, widths_append, widthsBehind, List.append_assoc,
    ← widths_congr hfront]
  rfl

theorem lineWidths_comment_eq_iff (h : OpensComment front other) (hfirst : Unclosed first) (hsecond : Unclosed second)
    (behind : List Char) (tabWidth : Nat) :
    lineWidths { text := front ++ (comment first ++ behind) } tabWidth =
        lineWidths { text := front ++ (comment second ++ behind) } tabWidth ↔
      (Leads front behind →
        marginBehind (max tabWidth 1) front first = marginBehind (max tabWidth 1) front second) := by
  rw [lineWidths_comment h hfirst, lineWidths_comment h hsecond, List.append_right_inj, Leads]
  cases begunBehind false (lexemes 0 front) with
  | true => simpa using widthsBehind_congr (.inl rfl)
  | false =>
    rw [widthsBehind_eq_iff]
    constructor
    · rintro hmargin ⟨-, gap, hgap, hline⟩
      have hsame := hmargin gap hgap
      rwa [margin_comment _ _ _ hline, margin_comment _ _ _ hline] at hsame
    · intro hmargin gap hgap
      by_cases hline : '\n' ∈ gap
      · rw [margin, margin, lastLine_append_of_mem hline, lastLine_append_of_mem hline]
      · rw [margin_comment _ _ _ hline, margin_comment _ _ _ hline]
        exact hmargin ⟨rfl, gap, hgap, hline⟩

/-- Comments with different texts leave the same tokens, unless one of them stands in front of all tokens of its
line, goes over several lines and so gives the token behind it another margin. -/
theorem tokens_comment_alike (h : OpensComment front other) (hfirst : Unclosed first) (hsecond : Unclosed second)
    (behind : List Char) (tabWidth : Nat) :
    Alike (lexemes 0 (front ++ (comment first ++ behind))) (lexemes 0 (front ++ (comment second ++ behind))) ∧
      (lineWidths { text := front ++ (comment first ++ behind) } tabWidth =
          lineWidths { text := front ++ (comment second ++ behind) } tabWidth ↔
        (Leads front behind →
          marginBehind (max tabWidth 1) front first = marginBehind (max tabWidth 1) front second)) ∧
      ((Leads front behind →
          marginBehind (max tabWidth 1) front first = marginBehind (max tabWidth 1) front second) →
        Alike (tokens { text := front ++ (comment first ++ behind) } tabWidth)
          (tokens { text := front ++ (comment second ++ behind) } tabWidth)) ∧
      ('\n' ∉ first → '\n' ∉ second →
        Alike (tokens { text := front ++ (comment first ++ behind) } tabWidth)
          (tokens { text := front ++ (comment second ++ behind) } tabWidth)) := by
  have hscanned : Alike (lexemes 0 (front ++ (comment first ++ behind)))
      (lexemes 0 (front ++ (comment second ++ behind))) := by
    rw [h.lexemes_eq hfirst, h.lexemes_eq hsecond]
    exact .append rfl (lexemes_alike _ _ _)
  have hwidths := lineWidths_comment_eq_iff h hfirst hsecond behind tabWidth
  refine ⟨hscanned, hwidths, fun hmargin => tokens_alike hscanned (hwidths.mpr hmargin), fun hone hother => ?_⟩
  refine tokens_alike hscanned (hwidths.mpr fun _ => ?_)
  rw [marginBehind, marginBehind, if_neg hone, if_neg hother]

end Comment

/-- A story line with a remark between its indentation and its first word. -/
def remarked (remark : String) : Source := { text := "a:\n  ".toList ++ (comment remark.toList ++ " b\n".toList) }

theorem tokens_comment_alike_remark : OpensComment "a:\n  ".toList [] ∧ Unclosed "one".toList ∧
    Unclosed "two\n  ".toList ∧ Alike (tokens (remarked "one") 8) (tokens (remarked "two\n  ") 8) := by
  have hopens : OpensComment "a:\n  ".toList [] := by decide +kernel
  have hfirst : Unclosed "one".toList := by decide +kernel
  have hsecond : Unclosed "two\n  ".toList := by decide +kernel
  exact ⟨hopens, hfirst, hsecond,
    (tokens_comment_alike hopens hfirst hsecond " b\n".toList 8).2.2.1 fun _ => by decide +kernel⟩

/-- A remark that goes over two lines hides the indentation in front of it. -/
theorem not_tokens_comment_alike : OpensComment "a:\n  ".toList [] ∧ Unclosed " one\ntwo ".toList ∧
    Unclosed " one two ".toList ∧ ¬ Alike (tokens (remarked " one\ntwo ") 8) (tokens (remarked " one two ") 8) ∧
    (tokens (remarked " one\ntwo ") 8).map (·.node) =
      [.word "a", .symbol .colon, .layout .newline, .word "b", .layout .newline] := by
  decide +kernel

end BranchingStory.Token
