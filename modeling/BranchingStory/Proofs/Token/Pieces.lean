import BranchingStory.Proofs.Source.Excerpts
import BranchingStory.Proofs.Token.Placement
import BranchingStory.Proofs.Token.Writing
import Mathlib.Data.List.Basic

/-! # The pieces of a text

Scanning cuts a text into pieces: tokens, and stretches that are passed over. The lexemes are the pieces that
are tokens, and all pieces in their order are the text. What a piece looks like follows from what it is. -/

namespace BranchingStory.Token
open Text
set_option autoImplicit false

/-- A token as it is written, or a stretch that is passed over. -/
structure Piece where
  token? : Option Token
  text : List Char
  start : Nat
deriving DecidableEq

/-- The pieces of a text that begins at the offset. -/
def pieces (offset : Nat) (text : List Char) : List Piece :=
  match text with
  | [] => []
  | c :: rest =>
    let s := scan c rest
    let taken := c :: rest.take s.more
    ⟨s.token?, taken, offset⟩ :: pieces (offset + byteLength taken) (rest.drop s.more)
termination_by text.length
decreasing_by
  simp only [List.length_cons, List.length_drop]
  omega

namespace Piece

def stop (p : Piece) : Nat := p.start + byteLength p.text

def lexeme? (p : Piece) : Option Lexeme := p.token?.map fun t => ⟨t, ⟨p.start, p.stop⟩⟩

def lexemesOf (ps : List Piece) : List Lexeme := ps.filterMap lexeme?

def textOf (ps : List Piece) : List Char := ps.flatMap (·.text)

variable {ps qs : List Piece} {p : Piece} {offset : Nat}

theorem textOf_append (ps qs : List Piece) : textOf (ps ++ qs) = textOf ps ++ textOf qs := List.flatMap_append

theorem textOf_cons (p : Piece) (ps : List Piece) : textOf (p :: ps) = p.text ++ textOf ps := List.flatMap_cons

theorem lexemesOf_append (ps qs : List Piece) : lexemesOf (ps ++ qs) = lexemesOf ps ++ lexemesOf qs :=
  List.filterMap_append

/-- Does each piece begin where the one in front of it ends, the first one at the offset? -/
def Placed : Nat → List Piece → Prop
  | _, [] => True
  | offset, p :: ps => p.start = offset ∧ Placed p.stop ps

theorem placed_append : Placed offset (ps ++ qs) ↔
    Placed offset ps ∧ Placed (offset + byteLength (textOf ps)) qs := by
  induction ps generalizing offset with
  | nil => simp [Placed, textOf]
  | cons p ps ih =>
    rw [List.cons_append, Placed, Placed, ih, textOf_cons, byteLength_append, and_assoc]
    refine and_congr_right fun hstart => ?_
    rw [stop, hstart, Nat.add_assoc]

theorem Placed.bounds (h : Placed offset ps) (hp : p ∈ ps) :
    offset ≤ p.start ∧ p.stop ≤ offset + byteLength (textOf ps) := by
  obtain ⟨front, back, rfl⟩ := List.append_of_mem hp
  have hstart : p.start = offset + byteLength (textOf front) := (placed_append.mp h).2.1
  rw [stop, hstart, textOf_append, textOf_cons, byteLength_append, byteLength_append]
  omega

end Piece

section Pieces
variable (offset : Nat) (text : List Char)

theorem lexemesOf_pieces : Piece.lexemesOf (pieces offset text) = lexemes offset text := by
  fun_induction pieces offset text with
  | case1 => rw [lexemes]; rfl
  | case2 offset c rest s taken ih =>
    rw [lexemes, Piece.lexemesOf, List.filterMap_cons, ← ih]
    dsimp only [Piece.lexeme?]
    cases (scan c rest).token? <;> rfl

theorem textOf_pieces : Piece.textOf (pieces offset text) = text := by
  fun_induction pieces offset text with
  | case1 => rfl
  | case2 offset c rest s taken ih => rw [Piece.textOf_cons, ih, List.cons_append, List.take_append_drop]

theorem placed_pieces : Piece.Placed offset (pieces offset text) := by
  fun_induction pieces offset text with
  | case1 => trivial
  | case2 offset c rest s taken ih => exact ⟨rfl, ih⟩

end Pieces

/-! ## What pieces look like -/

/-- A text that neither begins nor ends with a blank. -/
structure Trimmed (text : List Char) : Prop where
  ne_nil : text ≠ []
  first : ∀ c ∈ text.head?, isBlank c = false
  last : ∀ c ∈ text.getLast?, isBlank c = false

/-- The text of a token that begins and ends on one line. -/
structure Solid (text : List Char) : Prop extends Trimmed text where
  unbroken : '\n' ∉ text

theorem Trimmed.trim_eq {text : List Char} (h : Trimmed text) : trim text = text := trim_eq_self h.first h.last

theorem Trimmed.append {text more : List Char} (h : Trimmed text) (hmore : Trimmed more) (gap : List Char) :
    Trimmed (text ++ (gap ++ more)) where
  ne_nil := List.append_ne_nil_of_left_ne_nil h.ne_nil _
  first := by
    rw [List.head?_append_of_ne_nil _ h.ne_nil]
    exact h.first
  last := by
    rw [List.getLast?_append_of_ne_nil _ (List.append_ne_nil_of_right_ne_nil _ hmore.ne_nil),
      List.getLast?_append_of_ne_nil _ hmore.ne_nil]
    exact hmore.last

theorem Solid.of_forall {text : List Char} (hne : text ≠ []) (h : ∀ c ∈ text, isBlank c = false) : Solid text where
  ne_nil := hne
  first := fun c hc => h c (List.mem_of_head? hc)
  last := fun c hc => h c (List.mem_of_getLast? hc)
  unbroken := fun hmem => absurd (h _ hmem) (by decide)

/-- White space, or a comment; one that goes over several lines ends with the sign that closes it. -/
def Passed (text : List Char) : Prop :=
  (∀ c ∈ text, isSkippable c = true) ∨ text.head? = some '/' ∧ ('\n' ∈ text → text.getLast? = some '/')

theorem Passed.unbroken {text : List Char} (h : Passed text) (hblank : ∀ c ∈ text, isBlank c = true) :
    '\n' ∉ text := by
  obtain hskip | ⟨hslash, -⟩ := h
  · exact fun hmem => absurd (hskip _ hmem) (by decide)
  · exact absurd (hblank _ (List.mem_of_head? hslash)) (by decide)

/-- Can the token be written like this? -/
def Written : Token → List Char → Prop
  | .layout m, text => m = .newline ∧ text = ['\n']
  | .word name, text => text = name.toList ∧ IsName name
  | .symbol s, text => text = s.spelling.toList
  | .string _, text | .number _ _, text => Solid text
  | .unknown _, _ => True

def Piece.Apt (p : Piece) : Prop :=
  match p.token? with
  | none => Passed p.text
  | some t => t.Written p.text

/-- Is the token neither a mark nor unknown? -/
def Known (t : Token) : Prop := t.isLayout = false ∧ ∀ u, t ≠ .unknown u

/-- A number is spelled with digits and a point. -/
theorem isDigit_of_scanNumber (c : Char) (rest : List Char) :
    ∀ d ∈ rest.take (scanNumber c rest).more, d.isDigit = true ∨ d = '.' := by
  obtain ⟨whole, hwhole⟩ : ∃ whole, (if c = '0' then [] else rest.takeWhile Char.isDigit) = whole := ⟨_, rfl⟩
  have hdigits : ∀ d ∈ whole, d.isDigit = true := by
    rw [← hwhole]
    split
    · exact List.forall_mem_nil _
    · exact List.all_eq_true.mp List.all_takeWhile
  obtain ⟨behind, rfl⟩ : whole <+: rest := by
    rw [← hwhole]
    split
    · exact List.nil_prefix
    · exact List.takeWhile_prefix _
  rw [scanNumber, hwhole, List.drop_left]
  dsimp only
  split
  · rw [List.take_left]
    exact fun d hd => .inl (hdigits d hd)
  · next hsome =>
    rw [Nat.add_assoc, List.take_length_add_append]
    refine List.forall_mem_append.mpr ⟨fun d hd => .inl (hdigits d hd), ?_⟩
    cases behind with
    | nil => simp
    | cons d behind =>
      by_cases hd : d = '.'
      · subst hd
        rw [Nat.add_comm, List.take_succ_cons]
        refine List.forall_mem_cons.mpr ⟨.inr rfl, fun d hd => .inl ?_⟩
        rw [fractionOf, ← List.prefix_iff_eq_take.mp (List.takeWhile_prefix _)] at hd
        exact List.all_eq_true.mp List.all_takeWhile d hd
      · refine absurd ?_ hsome
        rw [fractionOf]
        rintro _ ⟨⟩
        exact hd rfl

theorem lineFeed_not_mem_literal (rest : List Char) : '\n' ∉ rest.take (literalLength rest) := by
  fun_induction literalLength rest with
  | case1 | case2 | case4 | case5 => simp
  | case3 c hc => simpa using fun heq : '\n' = c => hc (by simp [← heq])
  | case6 d rest hd _ ih =>
    rw [List.take_succ_cons, List.take_succ_cons]
    exact mt List.mem_cons.mp (not_or.mpr ⟨by decide, mt List.mem_cons.mp (not_or.mpr
      ⟨fun heq => hd (.inl heq.symm), ih⟩)⟩)
  | case7 c d rest hc _ ih =>
    rw [List.take_succ_cons]
    exact mt List.mem_cons.mp (not_or.mpr ⟨fun heq => hc (by simp [← heq]), ih⟩)

theorem symbol?_spelling {c : Char} {rest : List Char} {s : Symbol} {n : Nat} (h : symbol? c rest = some (s, n)) :
    c :: rest.take n = s.spelling.toList := by
  unfold symbol? at h
  split at h <;> first
    | (obtain ⟨rfl, rfl⟩ := Prod.mk.inj (Option.some.inj h); rfl)
    | exact absurd h (by simp)

theorem solid_spelling (s : Symbol) : Solid s.spelling.toList := by
  have hall : (s.spelling.toList.all fun c => !isBlank c) = true := by cases s <;> decide
  refine .of_forall (by cases s <;> decide) fun c hc => ?_
  simpa using List.all_eq_true.mp hall c hc

theorem IsName.solid {name : String} (h : IsName name) : Solid name.toList :=
  .of_forall h.1 fun c hc => IsName.isBlank_eq_false (h.2 c hc)

theorem Written.solid {t : Token} {text : List Char} (h : t.Written text) (hknown : t.Known) : Solid text := by
  cases t with
  | layout m => exact absurd hknown.1 (by simp [isLayout])
  | symbol s => exact h ▸ solid_spelling s
  | string content => exact h
  | number value spelling => exact h
  | word name =>
    obtain ⟨rfl, hname⟩ := h
    exact hname.solid
  | unknown u => exact absurd rfl (hknown.2 u)

theorem written_number (c : Char) (rest : List Char) (hc : c.isDigit = true) {t : Token}
    (h : (scanNumber c rest).token? = some t) : t.Written (c :: rest.take (scanNumber c rest).more) := by
  have hmore := isDigit_of_scanNumber c rest
  have hblank : ∀ d ∈ c :: rest.take (scanNumber c rest).more, isBlank d = false := by
    refine List.forall_mem_cons.mpr ⟨isBlank_eq_false_of_isDigit hc, fun d hd => ?_⟩
    rcases hmore d hd with hdigit | rfl
    · exact isBlank_eq_false_of_isDigit hdigit
    · rfl
  generalize (scanNumber c rest).more = n at hblank ⊢
  obtain rfl := Option.some.inj h
  exact .of_forall (List.cons_ne_nil _ _) hblank

theorem written_string (rest : List Char) {t : Token} (h : (scanString rest).token? = some t) :
    t.Written ('"' :: rest.take (scanString rest).more) := by
  rw [scanString] at h ⊢
  split at h
  · next behind hquote =>
    obtain rfl := Option.some.inj h
    have hinner := lineFeed_not_mem_literal rest
    have htake : rest.take (literalLength rest + 1) = rest.take (literalLength rest) ++ ['"'] := by
      rw [List.take_add, hquote]
      rfl
    have hlast : ('"' :: (rest.take (literalLength rest) ++ ['"'])).getLast? = some '"' := by
      rw [← List.cons_append, List.getLast?_concat]
    dsimp only
    rw [htake]
    exact ⟨⟨by simp, by simp [isBlank], by simp [hlast, isBlank]⟩, by simpa using hinner⟩
  · obtain rfl := Option.some.inj h
    trivial

/-- A block comment ends with a slash. -/
theorem getLast?_comment {behind : List Char} {n : Nat} (h : commentLength? behind = some n) :
    (behind.take n).getLast? = some '/' := by
  fun_induction commentLength? behind generalizing n with
  | case1 | case2 => exact absurd h (by simp)
  | case3 c d rest hclosed =>
    obtain rfl := Option.some.inj h
    rw [hclosed.1, hclosed.2]
    rfl
  | case4 c d rest hopen ih =>
    obtain ⟨n, hn, rfl⟩ := Option.map_eq_some_iff.mp h
    have hlast := ih hn
    rw [List.take_succ_cons, List.getLast?_cons, hlast]
    rfl

theorem apt_comment {c : Char} {rest : List Char} {s : Scan} (h : scanComment? c rest = some s) (offset : Nat) :
    Piece.Apt ⟨s.token?, c :: rest.take s.more, offset⟩ := by
  rw [scanComment?.eq_def] at h
  split at h
  · next behind =>
    obtain rfl := Option.some.inj h
    refine .inr ⟨rfl, fun hmem => absurd hmem ?_⟩
    dsimp only
    rw [Nat.add_comm, List.take_succ_cons, ← List.prefix_iff_eq_take.mp (List.takeWhile_prefix _)]
    have hline : '\n' ∉ behind.takeWhile (· != '\n') := fun hmem => by
      simpa using List.all_eq_true.mp List.all_takeWhile _ hmem
    simpa using hline
  · split at h
    · next behind n hn =>
      obtain rfl := Option.some.inj h
      refine .inr ⟨rfl, fun _ => ?_⟩
      dsimp only
      rw [Nat.add_comm, List.take_succ_cons, List.getLast?_cons, List.getLast?_cons, getLast?_comment hn]
      rfl
    · obtain rfl := Option.some.inj h
      trivial
  · exact absurd h (by simp)

theorem apt_scan (c : Char) (rest : List Char) (offset : Nat) :
    Piece.Apt ⟨(scan c rest).token?, c :: rest.take (scan c rest).more, offset⟩ := by
  refine scan_cases (motive := fun s => Piece.Apt ⟨s.token?, c :: rest.take s.more, offset⟩)
    (fun hskip => ?_) (fun hline => ?_) (fun hname => ?_) (fun hdigit => ?_) (fun hquote => ?_)
    (fun s hcomment => apt_comment hcomment offset) (fun s more hsymbol => symbol?_spelling hsymbol) trivial
  · dsimp only
    rw [← List.prefix_iff_eq_take.mp (List.takeWhile_prefix _)]
    exact .inl (List.forall_mem_cons.mpr ⟨hskip, List.all_eq_true.mp List.all_takeWhile⟩)
  · subst hline
    exact ⟨rfl, rfl⟩
  · dsimp only
    rw [← List.prefix_iff_eq_take.mp (List.takeWhile_prefix _)]
    exact ⟨String.toList_ofList.symm, isName_scanned hname rest⟩
  · exact written_number c rest hdigit rfl
  · subst hquote
    obtain ⟨t, ht⟩ := exists_of_scanString rest
    rw [Piece.Apt, ht]
    exact written_string rest ht

theorem apt_pieces (offset : Nat) (text : List Char) : ∀ p ∈ pieces offset text, p.Apt := by
  fun_induction pieces offset text with
  | case1 => simp
  | case2 offset c rest s taken ih => exact List.forall_mem_cons.mpr ⟨apt_scan c rest offset, ih⟩

end BranchingStory.Token
