import BranchingStory.Proofs.Script.Rereading
import BranchingStory.Proofs.Token.Parentheses

/-! # Combined guards

An option with a guard in a choice block with a guard keeps both as one text: each in parentheses, with `and` between
them. No token of either runs over its parentheses, so the text is read as the conjunction of the two, unless the
parentheses nest one of them more deeply than an expression may be nested. -/

namespace BranchingStory
open Text Token
set_option autoImplicit false

/-! ## Texts in parentheses -/

def inParentheses (text : List Char) : List Char := '(' :: (text ++ [')'])

/-- Two texts in parentheses, with `and` between them. -/
def conjoined (left right : List Char) : List Char :=
  inParentheses left ++ ' ' :: 'a' :: 'n' :: 'd' :: ' ' :: inParentheses right

theorem combineGuards_ofList (left right : List Char) :
    combineGuards (some (String.ofList left)) (some (String.ofList right)) =
      some (String.ofList (conjoined left right)) := by
  refine congrArg some (String.toList_inj.mp ?_)
  simp [conjoined, inParentheses]

theorem byteLength_inParentheses (text : List Char) : byteLength (inParentheses text) = byteLength text + 2 := by
  rw [inParentheses, byteLength_cons, byteLength_append]
  show 1 + (byteLength text + 1) = _
  omega

namespace Token

theorem lexemes_openParen (rest : List Char) (offset : Nat) :
    lexemes offset ('(' :: rest) = ⟨.symbol .openParen, ⟨offset, offset + 1⟩⟩ :: lexemes (offset + 1) rest :=
  @lexemes_cons '(' [] rest _ rfl offset

theorem lexemes_and (rest : List Char) (offset : Nat) :
    lexemes offset (' ' :: 'a' :: 'n' :: 'd' :: ' ' :: '(' :: rest) =
      ⟨.word "and", ⟨offset + 1, offset + 4⟩⟩ :: lexemes (offset + 5) ('(' :: rest) := by
  have hfront := @lexemes_blanks ('a' :: 'n' :: 'd' :: ' ' :: '(' :: rest) (by simp; decide) 1 offset
  have hword := @lexemes_cons 'a' ['n', 'd'] (' ' :: '(' :: rest) (.word "and") rfl (offset + 1)
  have hback := @lexemes_blanks ('(' :: rest) (by simp; decide) 1 (offset + 4)
  exact hfront.trans (hword.trans (congrArg _ hback))

end Token

namespace Expr.WrittenAs
variable {e : Expr} {text : List Char}

theorem lexemes_append_closeParen (h : e.WrittenAs text) (offset : Nat) (behind : List Char) :
    lexemes offset (text ++ ')' :: behind) = lexemes offset text ++
      ⟨.symbol .closeParen, ⟨offset + byteLength text, offset + byteLength text + 1⟩⟩ ::
        lexemes (offset + byteLength text + 1) behind := by
  obtain ⟨-, p, t, hp, ht⟩ := h.tight
  have hlast : ∀ q ∈ (pieces 0 text).getLast?, q.token? ≠ none := by
    rw [hp]
    rintro q ⟨⟩
    rw [ht]
    simp
  have hfront := lexemes_closeParen h.known hlast behind
  have hmoved := lexemes_shift offset 0 (text ++ ')' :: behind)
  rw [hfront, List.map_append, ← lexemes_shift, ← lexemes_shift, Nat.zero_add, Nat.zero_add, Nat.add_comm] at hmoved
  rw [hmoved]
  exact congrArg _ (@lexemes_cons ')' [] behind _ rfl _)

/-- In parentheses the text of an expression is a phrase of its own, whatever stands behind it. -/
theorem exists_group (h : e.WrittenAs text) (offset : Nat) :
    ∃ base : Expr, base.shift e.span.start = e ∧ ∃ q : Phrase, (∀ level, q.Fits level) ∧
      (∃ span, q.expr = .group span (base.shift (offset + 1))) ∧
      ∀ behind, lexemes offset (inParentheses text ++ behind) =
        q.tokens ++ lexemes (offset + byteLength (inParentheses text)) behind := by
  obtain ⟨base, hbase, hmoved⟩ := h.exists_base
  have hreads : Expr.parse? (lexemes (offset + 1) text) = some (base.shift (offset + 1)) := by
    rw [parse?_lexemes, hbase]
    rfl
  obtain ⟨p, ⟨hp, htokens⟩, hexpr, -⟩ := parse?_eq_some_iff.mp hreads
  have hstop : offset + byteLength (inParentheses text) = offset + 1 + byteLength text + 1 := by
    rw [byteLength_inParentheses]
    omega
  refine ⟨base, hmoved, .group ⟨offset, offset + 1⟩ p
    ⟨offset + 1 + byteLength text, offset + 1 + byteLength text + 1⟩, fun _ => hp, ⟨_, congrArg (Expr.group _) hexpr⟩,
    fun behind => ?_⟩
  have htext : inParentheses text ++ behind = '(' :: (text ++ ')' :: behind) := by simp [inParentheses]
  rw [hstop, htext, lexemes_openParen, h.lexemes_append_closeParen, Phrase.tokens, htokens]
  simp

end Expr.WrittenAs

/-! ## The conjunction -/

namespace Expr

/-- Is it the same expression, perhaps in another place? -/
def SameAs (e f : Expr) : Prop := ∃ (base : Expr) (i j : Nat), base.shift i = e ∧ base.shift j = f

/-- Is the expression the conjunction of the two, each of them in parentheses? -/
def Conjoins (a b e : Expr) : Prop :=
  ∃ span left right a' b', e = .binary span .and (.group left a') (.group right b') ∧ a'.SameAs a ∧ b'.SameAs b

variable {a b : Expr} {left right : List Char}

/-- Two texts in parentheses are a phrase, with the tokens and the depth that the parentheses give it. -/
theorem exists_conjunction (ha : a.WrittenAs left) (hb : b.WrittenAs right) :
    ∃ p : Phrase, p.Derives (lexemes 0 (conjoined left right)) ∧ Conjoins a b p.expr ∧
      p.expr.depth = max (a.depth + 1) (b.depth + 1) := by
  obtain ⟨a₀, ha₀, p, hp, ⟨outer, hpexpr⟩, hptokens⟩ := ha.exists_group 0
  obtain ⟨b₀, hb₀, q, hq, ⟨inner, hqexpr⟩, hqtokens⟩ := hb.exists_group (byteLength (inParentheses left) + 5)
  have hback := hqtokens []
  rw [List.append_nil, lexemes.eq_def _ [], List.append_nil] at hback
  let whole : Phrase :=
    .binary p .and ⟨byteLength (inParentheses left) + 1, byteLength (inParentheses left) + 4⟩ q
  have hexpr : whole.expr = .binary (spanOf whole.tokens) .and (.group outer (a₀.shift (0 + 1)))
      (.group inner (b₀.shift (byteLength (inParentheses left) + 5 + 1))) := by
    rw [Phrase.expr, hpexpr, hqexpr]
  refine ⟨whole, ⟨⟨Nat.zero_le _, hp _, hq _⟩, ?tokens⟩, ?conjoins, ?depth⟩
  case tokens =>
    rw [conjoined, hptokens, Nat.zero_add, Phrase.tokens, ← hback]
    exact congrArg _ (lexemes_and _ _).symm
  case conjoins => exact ⟨_, outer, inner, _, _, hexpr, ⟨a₀, _, _, rfl, ha₀⟩, ⟨b₀, _, _, rfl, hb₀⟩⟩
  case depth =>
    rw [hexpr, depth, depth, depth, depth_shift, depth_shift, ← ha₀, ← hb₀, depth_shift, depth_shift]

/-- Two texts in parentheses are read as the conjunction, unless the parentheses make one of them too deep. -/
theorem exists_conjoins (ha : a.WrittenAs left) (hb : b.WrittenAs right) :
    ∃ e, Conjoins a b e ∧ ∀ tabWidth,
      parse? (proper (tokens (.ofString (String.ofList (conjoined left right))) tabWidth)) =
        if a.depth < maxNesting ∧ b.depth < maxNesting then some e else none := by
  obtain ⟨p, ⟨hp, htokens⟩, hconjoins, hdepth⟩ := exists_conjunction ha hb
  refine ⟨p.expr, hconjoins, fun tabWidth => ?_⟩
  rw [proper_tokens_ofList fun t ht => (p.inOperand t (htokens ▸ ht)).1, ← htokens, Phrase.parse?_tokens hp, hdepth]
  exact if_congr (by omega) rfl rfl

end Expr

/-! ## Choices under two guards -/

namespace Source
open BranchingStory.Expr Statement
variable {s : Source} {tabWidth : Nat} {a b : Expr} {c : Choice}

theorem exists_guard_conjoins
    (h : s.MakesUnder (s.document tabWidth) (some (.parsed a)) (some (.parsed b)) c) :
    ∃ text e, c.guard = some text ∧ Conjoins a b e ∧ ∀ tab, parse? (proper (tokens (.ofString text) tab)) =
      if a.depth < maxNesting ∧ b.depth < maxNesting then some e else none := by
  obtain ⟨block, hblock, item, hmem, label, target, hchoice, hoption, rfl⟩ := h
  obtain ⟨left, hleft, hlefttext⟩ := guardText_written hblock (operand?_of_header? hchoice)
  obtain ⟨right, hright, hrighttext⟩ :=
    guardText_written (mem_trees_items block hblock item hmem) (operand?_of_header? hoption)
  rw [operand?_of_header? hchoice] at hlefttext
  rw [operand?_of_header? hoption] at hrighttext
  obtain ⟨e, hconjoins, hparse⟩ := exists_conjoins hleft hright
  refine ⟨String.ofList (conjoined left right), e, ?_, hconjoins, hparse⟩
  show combineGuards (s.guardText (some (.parsed a))) (s.guardText (some (.parsed b))) = _
  exact hlefttext ▸ hrighttext ▸ combineGuards_ofList left right

/-- Every choice of a script is made from an option in a choice block. If both have guards that are expressions, the
guard of the choice is read as their conjunction, or not at all if one of them is nested as deeply as an expression
may be: parentheses around it make it too deep. -/
theorem combined_guards_read (s : Source) (tabWidth : Nat) :
    (∀ v ∈ (s.analyse tabWidth).script.walk, ∀ c ∈ v.node.choices,
        c.Every fun c => ∃ outer inner, s.MakesUnder (s.document tabWidth) outer inner c) ∧
      ∀ a b c, s.MakesUnder (s.document tabWidth) (some (.parsed a)) (some (.parsed b)) c →
        ∃ text e, c.guard = some text ∧ Conjoins a b e ∧ ∀ tab, parse? (proper (tokens (.ofString text) tab)) =
          if a.depth < maxNesting ∧ b.depth < maxNesting then some e else none := by
  refine ⟨fun v hv => ?_, fun a b c h => exists_guard_conjoins h⟩
  obtain ⟨item, hitem, hmakes⟩ := s.makes_walk tabWidth v hv
  exact hmakes.forall_choices (makesUnder_choices (mem_trees_items item hitem))

/-! ## A guard that is too deep -/

/-- A choice block with a guard in 256 pairs of parentheses, and an option with a guard in it. -/
def thicket : Source where
  text := "story s:\n scene a:\n  beat x:\n   choice when ".toList ++
    (List.replicate 256 '(' ++ 'y' :: List.replicate 256 ')') ++ ":\n    option \"Go\" when z goto x\n".toList

/-- Is the statement a choice block with a guard of the depth, and with an option under another guard? -/
def isThicket (depth : Nat) : Statement → Bool
  | .block (.choice (some (.parsed a))) _ [.bare (.option (some _) (some (.parsed _)) _) _ _] _ _ => a.depth == depth
  | _ => false

/-- There is nothing to say against the story, and both guards are expressions, but together they are none. -/
theorem combined_guards_thicket :
    (thicket.analyse 8).hasErrors = false ∧
      ∃ a b c text, thicket.MakesUnder (thicket.document 8) (some (.parsed a)) (some (.parsed b)) c ∧
        c.guard = some text ∧ ∀ tab, parse? (proper (tokens (.ofString text) tab)) = none := by
  have hchecked : (thicket.analyse 8).hasErrors = false ∧
      (trees (thicket.document 8).statements).any (isThicket maxNesting) = true := by decide +kernel
  obtain ⟨hclean, hblock⟩ := hchecked
  refine ⟨hclean, ?_⟩
  obtain ⟨block, hmem, hthicket⟩ := List.any_eq_true.mp hblock
  rw [isThicket.eq_def] at hthicket
  split at hthicket
  · next a _ label b target span issues _ _ =>
    have hdeep : a.depth = maxNesting := by simpa using hthicket
    have hmakes : thicket.MakesUnder (thicket.document 8) (some (.parsed a)) (some (.parsed b)) _ :=
      ⟨_, hmem, _, List.mem_singleton_self _, label, target, rfl, rfl, rfl⟩
    obtain ⟨text, e, hguard, -, hparse⟩ := exists_guard_conjoins hmakes
    refine ⟨a, b, _, text, hmakes, hguard, fun tab => ?_⟩
    rw [hparse tab, if_neg (by simp [hdeep])]
  · exact absurd hthicket (by simp)

end Source

end BranchingStory
