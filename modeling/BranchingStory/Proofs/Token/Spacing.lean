import BranchingStory.Proofs.Token.Comments

/-! # Line ends and tabs

A carriage return in front of a line feed, and the spaces that a tab at the front of a line stands for, are only
another spelling of the same lines: the tokens are the same, and each line has the same margin. Only an unclosed
block comment, whose text is a token, tells how it is spelled. -/

namespace BranchingStory.Token
open Text
set_option autoImplicit false

/-! ## The front of a line -/

/-- A line as far as it has been read: the width of the white space at its front, and whether it has nothing else. -/
structure Front where
  width : Nat
  blank : Bool

namespace Front

def empty : Front := ⟨0, true⟩

def behind (tab : Nat) (f : Front) (c : Char) : Front :=
  if c = '\n' then empty
  else if f.blank ∧ isSkippable c then ⟨indentWidth tab f.width [c], true⟩
  else ⟨f.width, false⟩

def after (tab : Nat) (f : Front) (text : List Char) : Front := text.foldl (behind tab) f

variable {tab : Nat} {f : Front}

theorem after_append (text more : List Char) : f.after tab (text ++ more) = (f.after tab text).after tab more :=
  List.foldl_append

theorem width_carriageReturn (f : Front) : (f.behind tab '\r').width = f.width := by
  rw [behind, if_neg (by decide)]
  split <;> rfl

theorem after_spaces (width n : Nat) : after tab ⟨width, true⟩ (List.replicate n ' ') = ⟨width + n, true⟩ := by
  induction n generalizing width with
  | zero => rfl
  | succ n ih =>
    show after tab ⟨width + 1, true⟩ (List.replicate n ' ') = _
    rw [ih, Nat.add_assoc, Nat.add_comm 1]

/-- What else stands on a line does not change the white space at its front. -/
theorem after_solid {text : List Char} (h : '\n' ∉ text) (width : Nat) :
    after tab ⟨width, false⟩ text = ⟨width, false⟩ := by
  induction text with
  | nil => rfl
  | cons c text ih =>
    obtain ⟨hc, htext⟩ := not_or.mp (mt List.mem_cons.mpr h)
    show after tab (behind tab ⟨width, false⟩ c) text = _
    rw [behind, if_neg (Ne.symm hc), if_neg (by simp), ih htext]

theorem indentWidth_skippable {c : Char} (hc : isSkippable c = true) (width : Nat) (rest : List Char) :
    indentWidth tab width (c :: rest) = indentWidth tab (indentWidth tab width [c]) rest := by
  simp only [isSkippable, Bool.or_eq_true, beq_iff_eq] at hc
  rcases hc with ((((rfl | rfl) | rfl) | rfl) | rfl) | rfl <;> rfl

theorem width_after_line {line : List Char} (h : '\n' ∉ line) :
    (f.after tab line).width = if f.blank then indentWidth tab f.width line else f.width := by
  obtain ⟨width, blank⟩ := f
  cases blank with
  | false => rw [after_solid h, if_neg (by simp)]
  | true =>
    rw [if_pos rfl]
    induction line generalizing width with
    | nil => rfl
    | cons c line ih =>
      obtain ⟨hc, hline⟩ := not_or.mp (mt List.mem_cons.mpr h)
      show (after tab (behind tab ⟨width, true⟩ c) line).width = _
      rw [behind, if_neg (Ne.symm hc)]
      by_cases hskip : isSkippable c = true
      · rw [if_pos ⟨rfl, hskip⟩, ih hline]
        exact (indentWidth_skippable hskip width line).symm
      · rw [if_neg fun hblank => hskip hblank.2, after_solid hline]
        exact (indentWidth_stop (Bool.eq_false_iff.mpr hskip) tab width [] line).symm

/-- Read from the left, a text has the margin of its last line. -/
theorem width_after (text : List Char) : (empty.after tab text).width = margin tab text := by
  obtain ⟨front, hsplit, hline, hfront⟩ := exists_lastLine text
  have hempty : empty.after tab front = empty := by
    obtain rfl | ⟨init, rfl⟩ := hfront
    · rfl
    · rw [after_append]
      rfl
  rw [margin, hsplit, after_append, hempty, width_after_line hline, ← hsplit]
  rfl

end Front

/-! ## Another spelling -/

/-- Is the second text the first one with other line ends and other tabs, if they begin behind such a front of a
line? -/
inductive Respelled (tab : Nat) : Front → List Char → List Char → Prop
  | nil {f : Front} : Respelled tab f [] []
  | char {f : Front} {text text' : List Char} (c : Char) (h : Respelled tab (f.behind tab c) text text') :
      Respelled tab f (c :: text) (c :: text')
  | lineEnd {f : Front} {text text' : List Char} (h : Respelled tab .empty text text') :
      Respelled tab f ('\n' :: text) ('\r' :: '\n' :: text')
  | tab {width : Nat} {text text' : List Char} (h : Respelled tab (Front.behind tab ⟨width, true⟩ '\t') text text') :
      Respelled tab ⟨width, true⟩ ('\t' :: text) (List.replicate (tab - width % tab) ' ' ++ text')

/-- Every line feed with a carriage return in front of it. -/
def withReturns : List Char → List Char
  | [] => []
  | c :: text => (if c = '\n' then ['\r', '\n'] else [c]) ++ withReturns text

/-- Every tab at the front of a line as the spaces up to its tab stop. -/
def withoutTabs (tab : Nat) (f : Front) : List Char → List Char
  | [] => []
  | c :: text =>
    (if c = '\t' ∧ f.blank then List.replicate (tab - f.width % tab) ' ' else [c]) ++
      withoutTabs tab (f.behind tab c) text

example : withoutTabs 8 .empty "a:\n \tb\tc\n".toList = "a:\n        b\tc\n".toList := by decide

theorem respelled_withReturns {tab : Nat} (f : Front) (text : List Char) : Respelled tab f text (withReturns text) := by
  induction text generalizing f with
  | nil => exact .nil
  | cons c text ih =>
    rw [withReturns]
    split
    · next hc =>
      subst hc
      exact .lineEnd (ih _)
    · exact .char c (ih _)

theorem respelled_withoutTabs {tab : Nat} (f : Front) (text : List Char) : Respelled tab f text (withoutTabs tab f text) := by
  induction text generalizing f with
  | nil => exact .nil
  | cons c text ih =>
    rw [withoutTabs]
    split
    · next hc =>
      obtain ⟨width, blank⟩ := f
      obtain ⟨rfl, rfl⟩ := hc
      exact .tab (ih _)
    · exact .char c (ih _)

namespace Respelled
variable {tab : Nat} {f : Front} {text text' : List Char}

/-- The same characters in front of two spellings. -/
theorem append (front : List Char) (h : Respelled tab (f.after tab front) text text') :
    Respelled tab f (front ++ text) (front ++ text') := by
  induction front generalizing f with
  | nil => exact h
  | cons c front ih => exact .char c (ih h)

/-! ## Block comments -/

theorem head?_eq_slash (htab : 0 < tab) (h : Respelled tab f text text') :
    text'.head? = some '/' ↔ text.head? = some '/' := by
  cases h with
  | nil => exact Iff.rfl
  | char c h => exact Iff.rfl
  | lineEnd h => exact iff_of_false (by simp) (by simp)
  | @tab width text text' h =>
    obtain ⟨n, hn⟩ := Nat.exists_eq_add_one.mpr (Nat.sub_pos_of_lt (Nat.mod_lt width htab))
    rw [hn]
    exact iff_of_false (by simp [List.replicate_succ]) (by simp)

theorem commentLength?_cons {c : Char} {text : List Char} (h : ¬ (c = '*' ∧ text.head? = some '/')) :
    commentLength? (c :: text) = (commentLength? text).map (· + 1) := by
  cases text with
  | nil => rfl
  | cons d text =>
    rw [commentLength?, if_neg]
    rintro ⟨rfl, rfl⟩
    exact h ⟨rfl, rfl⟩

theorem commentLength?_spaces (n : Nat) (text : List Char) :
    commentLength? (List.replicate n ' ' ++ text) = (commentLength? text).map (· + n) := by
  induction n with
  | zero => simp
  | succ n ih =>
    rw [List.replicate_succ, List.cons_append, commentLength?_cons (by simp), ih, Option.map_map]
    rfl

/-- How far a block comment goes in the one spelling and in the other one: it is closed in neither of them, or behind
both closings the spellings go on. -/
inductive Closes (tab : Nat) (f : Front) (text text' : List Char) : Prop
  | never (h : commentLength? text = none) (h' : commentLength? text' = none)
  | closed (inside inside' : List Char) {behind behind' : List Char} (htext : text = inside ++ behind)
      (htext' : text' = inside' ++ behind') (h : commentLength? text = some inside.length)
      (h' : commentLength? text' = some inside'.length) (hafter : f.after tab inside' = f.after tab inside)
      (hbehind : Respelled tab (f.after tab inside) behind behind')

/-- What is put in front of both spellings and does not close the comment. -/
theorem Closes.of_behind (front front' : List Char) (h : Closes tab (f.after tab front) text text')
    (hfront : f.after tab front' = f.after tab front)
    (hlength : commentLength? (front ++ text) = (commentLength? text).map (· + front.length))
    (hlength' : commentLength? (front' ++ text') = (commentLength? text').map (· + front'.length)) :
    Closes tab f (front ++ text) (front' ++ text') := by
  cases h with
  | never h h' =>
    rw [h] at hlength
    rw [h'] at hlength'
    exact .never hlength hlength'
  | @closed inside inside' behind behind' htext htext' h h' hafter hbehind =>
    rw [h] at hlength
    rw [h'] at hlength'
    refine .closed (front ++ inside) (front' ++ inside') (by rw [htext, List.append_assoc])
      (by rw [htext', List.append_assoc]) ?_ ?_ ?_ ?_
    · rw [hlength, List.length_append, Nat.add_comm]
      rfl
    · rw [hlength', List.length_append, Nat.add_comm]
      rfl
    · rw [Front.after_append, Front.after_append, hfront, hafter]
    · rwa [Front.after_append]

theorem exists_slash (h : Respelled tab f text text') (hslash : text.head? = some '/') :
    ∃ rest rest', text = '/' :: rest ∧ text' = '/' :: rest' ∧ Respelled tab (f.behind tab '/') rest rest' := by
  cases h with
  | nil => simp at hslash
  | @char f text text' c h =>
    obtain rfl : c = '/' := Option.some.inj hslash
    exact ⟨text, text', rfl, rfl, h⟩
  | lineEnd h => simp at hslash
  | tab h => simp at hslash

theorem closes (htab : 0 < tab) (h : Respelled tab f text text') : Closes tab f text text' := by
  induction h with
  | nil => exact .never rfl rfl
  | @char f text text' c h ih =>
    by_cases hclose : c = '*' ∧ text.head? = some '/'
    · obtain ⟨rfl, hslash⟩ := hclose
      obtain ⟨rest, rest', rfl, rfl, hrest⟩ := h.exists_slash hslash
      exact .closed ['*', '/'] ['*', '/'] rfl rfl rfl rfl rfl hrest
    · have hclose' : ¬ (c = '*' ∧ text'.head? = some '/') := by rwa [h.head?_eq_slash htab]
      exact ih.of_behind [c] [c] rfl (commentLength?_cons hclose) (commentLength?_cons hclose')
  | @lineEnd f text text' h ih =>
    refine ih.of_behind ['\n'] ['\r', '\n'] rfl (commentLength?_cons (by simp)) ?_
    show commentLength? ('\r' :: '\n' :: text') = _
    rw [commentLength?_cons (by simp), commentLength?_cons (by simp), Option.map_map]
    rfl
  | @tab width text text' h ih =>
    refine ih.of_behind ['\t'] _ ?_ (commentLength?_cons (by simp)) ?_
    · rw [Front.after_spaces]
      rfl
    · rw [List.length_replicate, commentLength?_spaces]

/-! ## Lines -/

/-- Do both spellings end, or end a line and go on behind it? -/
inductive Breaks (tab : Nat) : List Char → List Char → Prop
  | nil : Breaks tab [] []
  | plain {text text' : List Char} (h : Respelled tab .empty text text') : Breaks tab ('\n' :: text) ('\n' :: text')
  | returned {text text' : List Char} (h : Respelled tab .empty text text') :
      Breaks tab ('\n' :: text) ('\r' :: '\n' :: text')

theorem Breaks.respelled (h : Breaks tab text text') (f : Front) : Respelled tab f text text' := by
  cases h with
  | nil => exact .nil
  | plain h => exact .char '\n' h
  | returned h => exact .lineEnd h

/-- What is left of a line that has not only white space is spelled in one way. -/
theorem exists_line (h : Respelled tab f text text') (hf : f.blank = false) : ∃ line behind behind',
    '\n' ∉ line ∧ text = line ++ behind ∧ text' = line ++ behind' ∧ Breaks tab behind behind' := by
  induction h with
  | nil => exact ⟨[], [], [], List.not_mem_nil, rfl, rfl, .nil⟩
  | @char f text text' c h ih =>
    by_cases hc : c = '\n'
    · subst hc
      exact ⟨[], _, _, List.not_mem_nil, rfl, rfl, .plain h⟩
    · have hblank : (f.behind tab c).blank = false := by
        rw [Front.behind, if_neg hc, if_neg (by simp [hf])]
      obtain ⟨line, behind, behind', hline, rfl, rfl, hbreaks⟩ := ih hblank
      exact ⟨c :: line, behind, behind', by simp [Ne.symm hc, hline], rfl, rfl, hbreaks⟩
  | lineEnd h ih => exact ⟨[], _, _, List.not_mem_nil, rfl, rfl, .returned h⟩
  | tab h ih => exact absurd hf (by simp)

/-- A piece of a line that begins no comment is the same in both spellings. -/
theorem Breaks.scan_eq {behind behind' line : List Char} {c : Char} (h : Breaks tab behind behind')
    (hc : isSkippable c = false) (hcomment : scanComment? c line = none) :
    scan c (line ++ behind) = scan c line ∧ scan c (line ++ behind') = scan c line := by
  have hend := fun d (hd : d = '\n' ∨ d = '\r') => scan_lineEnd hd hc hcomment
  cases h with
  | nil => rw [List.append_nil]; exact ⟨rfl, rfl⟩
  | plain h => exact ⟨hend _ (.inl rfl) _, hend _ (.inl rfl) _⟩
  | returned h => exact ⟨hend _ (.inl rfl) _, hend _ (.inr rfl) _⟩

end Respelled

/-! ## Tokens behind -/

/-- The token without the text of an unclosed block comment, which is the only unknown text that begins as one. -/
def veiled : Token → Token
  | .unknown text => .unknown (if ['/', '*'] <+: text.toList then "/*" else text)
  | t => t

theorem isNewline_veiled (t : Token) : t.veiled.isNewline = t.isNewline := by
  cases t <;> rfl

/-- Are the texts scanned alike, behind texts that leave the same line begun? -/
structure SameBehind (tab : Nat) (before before' text text' : List Char) : Prop where
  nodes : ∀ offset offset',
    (lexemes offset text).map (·.node.veiled) = (lexemes offset' text').map (·.node.veiled)
  widths : ∀ begun, widthsBehind tab before begun text = widthsBehind tab before' begun text'

theorem widthsBehind_blank {c : Char} (hc : isSkippable c = true) (tab : Nat) (before text : List Char) (begun : Bool) :
    widthsBehind tab before begun (c :: text) = widthsBehind tab (before ++ [c]) begun text := by
  have htext : before ++ [c] ++ text = before ++ c :: text := by simp
  rw [widthsBehind, widthsBehind, htext, lexemes_blank hc, byteLength_append]
  rfl

namespace SameBehind
variable {tab : Nat} {before before' text text' : List Char}

theorem symm (h : SameBehind tab before before' text text') : SameBehind tab before' before text' text :=
  ⟨fun offset offset' => (h.nodes offset' offset).symm, fun begun => (h.widths begun).symm⟩

theorem nil : SameBehind tab before before' [] [] := by
  refine ⟨fun offset offset' => ?_, fun begun => ?_⟩
  · rw [lexemes, lexemes]
  · rw [widthsBehind_nil, widthsBehind_nil]

theorem blank {c : Char} (hc : isSkippable c = true) (h : SameBehind tab (before ++ [c]) before' text text') :
    SameBehind tab before before' (c :: text) text' := by
  refine ⟨fun offset offset' => ?_, fun begun => ?_⟩
  · rw [lexemes_blank hc]
    exact h.nodes _ _
  · rw [widthsBehind_blank hc]
    exact h.widths begun

theorem spaces (n : Nat) (h : SameBehind tab (before ++ List.replicate n ' ') before' text text') :
    SameBehind tab before before' (List.replicate n ' ' ++ text) text' := by
  induction n generalizing before with
  | zero => rwa [List.replicate_zero, List.append_nil] at h
  | succ n ih =>
    rw [List.replicate_succ, List.cons_append]
    refine blank rfl (ih ?_)
    rwa [List.append_assoc, List.singleton_append, ← List.replicate_succ]

/-- Pieces in front that stand for the same token, or for none. -/
theorem piece {c c' : Char} (inside inside' : List Char) {behind behind' : List Char} {t t' : Option Token}
    (hscan : scan c (inside ++ behind) = ⟨t, inside.length⟩) (hscan' : scan c' (inside' ++ behind') = ⟨t', inside'.length⟩)
    (ht : t.map veiled = t'.map veiled) (hmargin : margin tab before = margin tab before')
    (h : SameBehind tab (before ++ c :: inside) (before' ++ c' :: inside') behind behind') :
    SameBehind tab before before' (c :: (inside ++ behind)) (c' :: (inside' ++ behind')) := by
  have hnone : t = none ↔ t' = none := by
    rw [← Option.map_eq_none_iff (f := veiled), ht, Option.map_eq_none_iff]
  cases t with
  | none =>
    obtain rfl := hnone.mp rfl
    refine ⟨fun offset offset' => ?_, fun begun => ?_⟩
    · rw [lexemes, lexemes, hscan, hscan', List.drop_left, List.drop_left]
      exact h.nodes _ _
    · rw [widthsBehind_none (by rw [hscan]), widthsBehind_none (by rw [hscan']), hscan, hscan', List.take_left,
        List.drop_left, List.take_left, List.drop_left]
      exact h.widths begun
  | some t =>
    obtain ⟨t', rfl⟩ := Option.ne_none_iff_exists'.mp (mt hnone.mpr (by simp))
    have hveiled : t.veiled = t'.veiled := Option.some.inj ht
    have hnewline : t.isNewline = t'.isNewline := by rw [← isNewline_veiled, hveiled, isNewline_veiled]
    refine ⟨fun offset offset' => ?_, fun begun => ?_⟩
    · rw [lexemes, lexemes, hscan, hscan', List.drop_left, List.drop_left]
      exact congrArg₂ List.cons hveiled (h.nodes _ _)
    · rw [widthsBehind_some (congrArg Scan.token? hscan), widthsBehind_some (congrArg Scan.token? hscan'), hscan,
        hscan', List.take_left, List.drop_left, List.take_left, List.drop_left, hmargin, hnewline, h.widths]

end SameBehind

namespace Respelled
variable {tab : Nat} {f : Front} {before before' text text' : List Char}

/-- Are all spellings of shorter texts scanned alike, behind whatever is added in front of them? -/
def Onward (tab : Nat) (f : Front) (before before' : List Char) (length : Nat) : Prop :=
  ∀ {g : Front} (front front' : List Char) {behind behind' : List Char}, behind.length < length →
    Respelled tab g behind behind' → f.after tab front = g → f.after tab front' = g →
    SameBehind tab (before ++ front) (before' ++ front') behind behind'

section Line
variable {c : Char} {line behind behind' : List Char} {width : Nat}

theorem after_of_solid (hsolid : f.behind tab c = ⟨width, false⟩) (hline : '\n' ∉ line) :
    f.after tab (c :: line) = ⟨width, false⟩ := by
  show (f.behind tab c).after tab line = _
  rw [hsolid, Front.after_solid hline]

theorem sameBehind_piece (hgo : Onward tab f before before' (c :: (line ++ behind)).length)
    (hmargin : margin tab before = margin tab before') (hsolid : f.behind tab c = ⟨width, false⟩)
    (hc : isSkippable c = false) (hline : '\n' ∉ line) (hbreaks : Breaks tab behind behind')
    (hcomment : scanComment? c line = none) :
    SameBehind tab before before' (c :: (line ++ behind)) (c :: (line ++ behind')) := by
  obtain ⟨hscan, hscan'⟩ := hbreaks.scan_eq hc hcomment
  obtain ⟨inside, rest, rfl, hmore⟩ : ∃ inside rest, line = inside ++ rest ∧ (scan c line).more = inside.length :=
    ⟨_, _, (List.take_append_drop (scan c line).more line).symm,
      (List.length_take_of_le (more_scan_le c line)).symm⟩
  have hrest : '\n' ∉ rest := fun hmem => hline (List.mem_append_right _ hmem)
  have hinside : '\n' ∉ inside := fun hmem => hline (List.mem_append_left _ hmem)
  rw [List.append_assoc] at hscan hscan' hgo ⊢
  rw [List.append_assoc]
  have hscanned : scan c (inside ++ rest) = ⟨(scan c (inside ++ rest)).token?, inside.length⟩ := by rw [← hmore]
  refine .piece inside inside (hscan.trans hscanned) (hscan'.trans hscanned) rfl hmargin ?_
  refine hgo _ _ ?_ (.append rest (hbreaks.respelled _)) (after_of_solid hsolid hinside) (after_of_solid hsolid hinside)
  simp only [List.length_cons, List.length_append]
  omega

theorem sameBehind_lineComment (hgo : Onward tab f before before' ('/' :: ('/' :: line ++ behind)).length)
    (hmargin : margin tab before = margin tab before') (hsolid : f.behind tab '/' = ⟨width, false⟩)
    (hline : '\n' ∉ line) (hbreaks : Breaks tab behind behind') :
    SameBehind tab before before' ('/' :: ('/' :: line ++ behind)) ('/' :: ('/' :: line ++ behind')) := by
  have hslash : '\n' ∉ '/' :: line := by simp [hline]
  have hscan : ∀ behind : List Char, (∀ c ∈ behind.head?, c = '\n') →
      scan '/' ('/' :: line ++ behind) = ⟨none, ('/' :: line).length⟩ := fun _ => scan_lineComment hline
  cases hbreaks with
  | nil => exact .piece _ _ (hscan [] (by simp)) (hscan [] (by simp)) rfl hmargin .nil
  | plain h =>
    refine .piece _ _ (hscan _ (by simp)) (hscan _ (by simp)) rfl hmargin ?_
    exact hgo _ _ (by simp; omega) (.char '\n' h) (after_of_solid hsolid hslash) (after_of_solid hsolid hslash)
  | @returned more more' h =>
    have hreturned : '\n' ∉ line ++ ['\r'] := by simp [hline]
    have hsplit : '/' :: line ++ '\r' :: '\n' :: more' = '/' :: (line ++ ['\r']) ++ '\n' :: more' := by simp
    rw [hsplit]
    refine .piece _ _ (hscan _ (by simp)) (scan_lineComment hreturned (by simp)) rfl hmargin ?_
    exact hgo _ _ (by simp; omega) (.char '\n' h) (after_of_solid hsolid hslash)
      (after_of_solid hsolid (by simp [hreturned]))

theorem sameBehind_blockComment (htab : 0 < tab) (hgo : Onward tab f before before' ('/' :: '*' :: text).length)
    (hmargin : margin tab before = margin tab before') (hsolid : f.behind tab '/' = ⟨width, false⟩)
    (h : Respelled tab ⟨width, false⟩ text text') :
    SameBehind tab before before' ('/' :: '*' :: text) ('/' :: '*' :: text') := by
  have hopening : f.after tab ['/', '*'] = ⟨width, false⟩ := after_of_solid hsolid (by simp)
  cases h.closes htab with
  | never hnone hnone' =>
    have hunclosed : ∀ {text : List Char}, commentLength? text = none → scan '/' ('*' :: text ++ []) =
        ⟨some (.unknown (String.ofList ('/' :: '*' :: text))), ('*' :: text).length⟩ := by
      intro text hnone
      rw [List.append_nil]
      exact scan_of_comment (by rw [scanComment?, hnone])
    have hveiled : ∀ text, veiled (.unknown (String.ofList ('/' :: '*' :: text))) = .unknown "/*" := by
      intro text
      rw [veiled, String.toList_ofList, if_pos ⟨text, rfl⟩]
    have hend : SameBehind tab before before' ('/' :: ('*' :: text ++ [])) ('/' :: ('*' :: text' ++ [])) := by
      refine .piece _ _ (hunclosed hnone) (hunclosed hnone') ?_ hmargin .nil
      rw [Option.map_some, Option.map_some, hveiled, hveiled]
    rwa [List.append_nil, List.append_nil] at hend
  | @closed inside inside' behind behind' htext htext' hclosed hclosed' hafter hbehind =>
    subst htext htext'
    have hpassed : ∀ {inside behind : List Char}, commentLength? (inside ++ behind) = some inside.length →
        scan '/' ('*' :: inside ++ behind) = ⟨none, ('*' :: inside).length⟩ := by
      intro inside behind hclosed
      refine scan_of_comment ?_
      rw [List.cons_append, scanComment?, hclosed]
      exact congrArg (fun more => some (Scan.mk none more)) (Nat.add_comm 1 _)
    refine .piece _ _ (hpassed hclosed) (hpassed hclosed') rfl hmargin ?_
    refine hgo _ _ (by simp; omega) hbehind ?_ ?_
    · exact (Front.after_append ['/', '*'] inside).trans (by rw [hopening])
    · exact (Front.after_append ['/', '*'] inside').trans (by rw [hopening, hafter])

theorem exists_of_scanComment? {s : Scan} (h : scanComment? c line = some s) :
    c = '/' ∧ ∃ rest, line = '/' :: rest ∨ line = '*' :: rest := by
  cases line with
  | nil => simp [scanComment?] at h
  | cons d rest =>
    by_cases hopens : c = '/' ∧ (d = '/' ∨ d = '*')
    · obtain ⟨rfl, rfl | rfl⟩ := hopens
      · exact ⟨rfl, rest, .inl rfl⟩
      · exact ⟨rfl, rest, .inr rfl⟩
    · rw [scanComment?_eq_none hopens] at h
      exact absurd h (by simp)

end Line

/-- Another spelling is scanned alike, and its lines have the same margins. -/
theorem sameBehind (htab : 0 < tab) (h : Respelled tab f text text') (hbefore : Front.empty.after tab before = f)
    (hbefore' : Front.empty.after tab before' = f) : SameBehind tab before before' text text' := by
  induction hlength : text.length using Nat.strongRecOn generalizing f before before' text text' with
  | ind length ih =>
    have hmargin : margin tab before = margin tab before' := by
      rw [← Front.width_after, ← Front.width_after, hbefore, hbefore']
    have hgo : Onward tab f before before' length := by
      intro g front front' behind behind' hlt hbehind hfront hfront'
      refine ih _ hlt hbehind ?_ ?_ rfl
      · rw [Front.after_append, hbefore, hfront]
      · rw [Front.after_append, hbefore', hfront']
    subst hlength
    cases h with
    | nil => exact .nil
    | @lineEnd f text text' h =>
      refine (SameBehind.blank (c := '\r') rfl (SameBehind.symm ?_)).symm
      have hreturn : margin tab before = margin tab (before' ++ ['\r']) := by
        rw [← Front.width_after, ← Front.width_after, Front.after_append, hbefore, hbefore']
        exact (Front.width_carriageReturn f).symm
      refine SameBehind.piece [] [] rfl rfl rfl hreturn ?_
      rw [List.append_assoc]
      exact hgo _ _ (by simp) h rfl rfl
    | @tab width text text' h =>
      refine .blank rfl (SameBehind.symm (.spaces _ (SameBehind.symm ?_)))
      refine hgo _ _ (by simp) h rfl ?_
      rw [Front.after_spaces]
      rfl
    | @char f text text' c h =>
      by_cases hskip : isSkippable c = true
      · refine .blank hskip (SameBehind.symm (.blank hskip (SameBehind.symm ?_)))
        exact hgo _ _ (by simp) h rfl rfl
      by_cases hline : c = '\n'
      · subst hline
        refine SameBehind.piece [] [] rfl rfl rfl hmargin ?_
        exact hgo _ _ (by simp) h rfl rfl
      have hsolid : f.behind tab c = ⟨f.width, false⟩ := by
        rw [Front.behind, if_neg hline, if_neg fun hblank => hskip hblank.2]
      rw [hsolid] at h
      obtain ⟨line, behind, behind', hline, rfl, rfl, hbreaks⟩ := h.exists_line rfl
      cases hcomment : scanComment? c line with
      | none => exact sameBehind_piece hgo hmargin hsolid (Bool.eq_false_iff.mpr hskip) hline hbreaks hcomment
      | some s =>
        obtain ⟨rfl, rest, rfl | rfl⟩ := exists_of_scanComment? hcomment
        · exact sameBehind_lineComment hgo hmargin hsolid (fun hmem => hline (List.mem_cons_of_mem _ hmem)) hbreaks
        · have hrest := hbreaks.respelled (Front.after tab ⟨f.width, false⟩ rest)
          exact sameBehind_blockComment htab hgo hmargin hsolid (.append rest hrest)

end Respelled

/-! ## Laying out -/

def veil (t : Lexeme) : Lexeme := ⟨t.node.veiled, t.span⟩

def TokenLine.veil (line : TokenLine) : TokenLine := ⟨line.content.map Token.veil, line.newline⟩

theorem splitLines_veil (eof : Nat) (ts : List Lexeme) :
    splitLines eof (ts.map veil) = (splitLines eof ts).map TokenLine.veil := by
  induction ts with
  | nil => rfl
  | cons t ts ih =>
    have hnewline : (veil t).node.isNewline = t.node.isNewline := isNewline_veiled t.node
    rw [List.map_cons, splitLines, splitLines, hnewline, ih]
    split
    · rfl
    · cases splitLines eof ts <;> rfl

theorem enterLine_veil (levels : List Nat) (width start first : Nat) :
    (enterLine levels width start first).1.map veil = (enterLine levels width start first).1 := by
  have hclosed : ∀ closed : List Nat, (closed.map fun _ => mark .dedent ⟨first, first⟩).map veil =
      closed.map fun _ => mark .dedent ⟨first, first⟩ := by
    intro closed
    rw [List.map_map]
    rfl
  rw [enterLine]
  split
  · rfl
  · dsimp only
    split
    · exact hclosed _
    · rw [List.map_append, hclosed]
      rfl

theorem layOut_veil (index : LineIndex) (tab : Nat) (levels : List Nat) (lines : List TokenLine) :
    (layOut index tab levels lines).map veil = layOut index tab levels (lines.map TokenLine.veil) := by
  induction lines generalizing levels with
  | nil =>
    rw [List.map_nil, layOut, List.map_map]
    rfl
  | cons line lines ih =>
    obtain ⟨content, newline⟩ := line
    cases content with
    | nil => exact congrArg _ (ih levels)
    | cons first more =>
      have hmarks := enterLine_veil levels (indentWidth tab 0 (index.lineAt first.span.start).text)
        (index.lineAt first.span.start).start first.span.start
      rw [List.map_cons, layOut]
      dsimp only
      rw [List.map_append, List.map_append, hmarks]
      exact congrArg (_ ++ mark .newline newline :: ·) (ih _)

theorem width_veil (index : LineIndex) (tab : Nat) (line : TokenLine) : line.veil.width index tab = line.width index tab := by
  obtain ⟨content, newline⟩ := line
  cases content <;> rfl

/-- Other line ends and other tabs give the same tokens, but for the text of an unclosed block comment. -/
theorem Respelled.tokens {text text' : List Char} {tabWidth : Nat} (h : Respelled (max tabWidth 1) .empty text text') :
    (tokens { text := text' } tabWidth).map (·.node.veiled) =
      (tokens { text := text } tabWidth).map (·.node.veiled) := by
  have hsame : SameBehind (max tabWidth 1) [] [] text text' := h.sameBehind (Nat.le_max_right _ _) rfl rfl
  have hnodes : Alike ((lexemes 0 text').map veil) ((lexemes 0 text).map veil) := by
    rw [Alike, List.map_map, List.map_map]
    exact (hsame.nodes 0 0).symm
  have hwidths : ∀ (text : List Char) (eof : Nat), ((splitLines eof (lexemes 0 text)).map TokenLine.veil).map
      (·.width (LineIndex.ofSource text) (max tabWidth 1)) = widthsBehind (max tabWidth 1) [] false text := by
    intro text eof
    rw [List.map_map]
    exact (List.map_congr_left fun line _ => width_veil _ _ line).trans (widths_splitLines _ _ _ _).1
  have hlines := splitLines_alike hnodes (Source.length { text := text' }) (Source.length { text := text })
  rw [splitLines_veil, splitLines_veil] at hlines
  have hlaid := layOut_alike hlines ((hwidths text' _).trans ((hsame.widths false).symm.trans (hwidths text _).symm)) []
  rw [← layOut_veil, ← layOut_veil, Alike, List.map_map, List.map_map] at hlaid
  exact hlaid

end BranchingStory.Token
