import BranchingStory.Document.FirstLine
import BranchingStory.Proofs.Document.Grammar

/-! # Where an operand ends

An operand is cut out of its line before it is read as an expression, by counting brackets. The cut goes
through a phrase only at a stop that stands outside the brackets of the phrase, so a phrase without
such a stop is cut out as a whole. -/

namespace BranchingStory
set_option autoImplicit false

namespace Reading

/-- How many brackets are open behind the token. -/
def bracketStep (depth : Nat) : Token → Nat
  | .symbol .openParen | .symbol .openBrace | .symbol .openBracket => depth + 1
  | .symbol .closeParen | .symbol .closeBrace | .symbol .closeBracket => depth - 1
  | _ => depth

/-- How many brackets are open behind the tokens. -/
def bracketsOpen (depth : Nat) (ts : List Lexeme) : Nat := ts.foldl (fun d t => bracketStep d t.node) depth

/-- Is none of the tokens the end of a line or, outside brackets, a stop? -/
def Passes (stop : Token → Bool) : Nat → List Lexeme → Prop
  | _, [] => True
  | depth, t :: rest =>
    t.node.isNewline = false ∧ (depth = 0 → stop t.node = false) ∧ Passes stop (bracketStep depth t.node) rest

section Operands
variable {stop : Token → Bool} {depth : Nat} {t : Lexeme} {ts us : List Lexeme}

theorem operandLength_cons :
    operandLength stop depth (t :: ts) =
      if t.node.isNewline || (depth == 0 && stop t.node) then 0
      else operandLength stop (bracketStep depth t.node) ts + 1 := by
  rw [operandLength]
  split
  · rfl
  · unfold bracketStep
    split <;> simp only [*]

theorem passes_append :
    Passes stop depth (ts ++ us) ↔ Passes stop depth ts ∧ Passes stop (bracketsOpen depth ts) us := by
  induction ts generalizing depth with
  | nil => simp [Passes, bracketsOpen]
  | cons t ts ih =>
    rw [List.cons_append, Passes, ih, Passes, and_assoc, and_assoc]
    rfl

theorem bracketsOpen_append : bracketsOpen depth (ts ++ us) = bracketsOpen (bracketsOpen depth ts) us :=
  List.foldl_append

theorem operandLength_append (h : Passes stop depth ts) :
    operandLength stop depth (ts ++ us) = ts.length + operandLength stop (bracketsOpen depth ts) us := by
  induction ts generalizing depth with
  | nil => simp [bracketsOpen]
  | cons t ts ih =>
    obtain ⟨hnewline, hstop, hrest⟩ := h
    have hgo : (t.node.isNewline || (depth == 0 && stop t.node)) = false := by
      rw [hnewline, Bool.false_or, Bool.and_eq_false_imp]
      exact fun hdepth => hstop (by simpa using hdepth)
    rw [List.cons_append, operandLength_cons, hgo, ih hrest, List.length_cons]
    simp only [Bool.false_eq_true, if_false, bracketsOpen, List.foldl_cons]
    omega

theorem passes_of_le (h : ts.length ≤ operandLength stop depth (ts ++ us)) : Passes stop depth ts := by
  induction ts generalizing depth with
  | nil => trivial
  | cons t ts ih =>
    rw [List.cons_append, operandLength_cons] at h
    split at h
    · exact absurd h (by simp)
    · next hgo =>
      simp only [Bool.or_eq_true, Bool.and_eq_true, beq_iff_eq, not_or, not_and, Bool.not_eq_true] at hgo
      exact ⟨hgo.1, hgo.2, ih (Nat.le_of_succ_le_succ h)⟩

end Operands

end Reading

namespace Expr
open Reading
variable {stop : Token → Bool}

theorem bracketStep_operator (op : BinaryOp) (depth : Nat) : bracketStep depth op.token = depth := by
  cases op <;> rfl

theorem bracketStep_unary (op : UnaryOp) (depth : Nat) : bracketStep depth op.token = depth := by
  cases op <;> rfl

theorem bracketStep_keyToken (quoted : Bool) (key : Name) (depth : Nat) :
    bracketStep depth (keyToken quoted key) = depth := by
  cases quoted <;> rfl

mutual

theorem Phrase.bracketsOpen_tokens : ∀ (p : Phrase) (depth : Nat), bracketsOpen depth p.tokens = depth
  | .string _ _, _ | .number _ _ _, _ | .boolean _ _, _ | .identifier _ _, _ => rfl
  | .unary op mark operand, depth => by
    rw [Phrase.tokens, bracketsOpen, List.foldl_cons, bracketStep_unary]
    exact operand.bracketsOpen_tokens depth
  | .binary lhs op mark rhs, depth => by
    rw [Phrase.tokens, bracketsOpen_append, lhs.bracketsOpen_tokens, bracketsOpen, List.foldl_cons,
      bracketStep_operator]
    exact rhs.bracketsOpen_tokens depth
  | .group opening inner closing, depth => by
    have hinner := inner.bracketsOpen_tokens (depth + 1)
    rw [Phrase.tokens, ← List.cons_append, bracketsOpen_append]
    show bracketsOpen (bracketsOpen (depth + 1) inner.tokens) _ = depth
    rw [hinner]
    rfl
  | .object opening fields, depth => fields.bracketsOpen_tokens depth
  | .array opening items, depth => items.bracketsOpen_tokens depth

/-- Behind the fields the bracket in front of them is closed. -/
theorem Fields.bracketsOpen_tokens : ∀ (f : Fields) (depth : Nat), bracketsOpen (depth + 1) f.tokens = depth
  | .close _, _ => rfl
  | .last quoted key colon value closing, depth => by
    have hvalue := value.bracketsOpen_tokens (depth + 1)
    rw [Fields.tokens, bracketsOpen, List.foldl_cons, bracketStep_keyToken, List.foldl_cons]
    show bracketsOpen (depth + 1) (value.tokens ++ _) = depth
    rw [bracketsOpen_append, hvalue]
    rfl
  | .more quoted key colon value comma rest, depth => by
    have hvalue := value.bracketsOpen_tokens (depth + 1)
    rw [Fields.tokens, bracketsOpen, List.foldl_cons, bracketStep_keyToken, List.foldl_cons]
    show bracketsOpen (depth + 1) (value.tokens ++ _) = depth
    rw [bracketsOpen_append, hvalue]
    exact rest.bracketsOpen_tokens depth

theorem Items.bracketsOpen_tokens : ∀ (f : Items) (depth : Nat), bracketsOpen (depth + 1) f.tokens = depth
  | .close _, _ => rfl
  | .last item closing, depth => by
    rw [Items.tokens, bracketsOpen_append, item.bracketsOpen_tokens]
    rfl
  | .more item comma rest, depth => by
    rw [Items.tokens, bracketsOpen_append, item.bracketsOpen_tokens]
    exact rest.bracketsOpen_tokens depth

end

/-- A token inside brackets is passed unless it ends the line. -/
theorem passes_cons_succ {depth : Nat} {t : Lexeme} {ts : List Lexeme} (ht : t.node.isLayout = false)
    (h : Passes stop (bracketStep (depth + 1) t.node) ts) : Passes stop (depth + 1) (t :: ts) := by
  refine ⟨?_, by simp, h⟩
  cases hnode : t.node with
  | layout m => simp [hnode, Token.isLayout] at ht
  | _ => rfl

theorem Phrase.passes_append (p : Phrase) {depth : Nat} {us : List Lexeme} :
    Passes stop depth (p.tokens ++ us) ↔ Passes stop depth p.tokens ∧ Passes stop depth us := by
  rw [Reading.passes_append, p.bracketsOpen_tokens]

mutual

theorem Phrase.passes_succ : ∀ (p : Phrase) (depth : Nat), Passes stop (depth + 1) p.tokens
  | .string _ _, _ | .number _ _ _, _ | .boolean _ _, _ | .identifier _ _, _ => passes_cons_succ rfl trivial
  | .unary op mark operand, depth => by
    refine passes_cons_succ (by cases op <;> rfl) ?_
    rw [bracketStep_unary]
    exact operand.passes_succ depth
  | .binary lhs op mark rhs, depth => by
    refine lhs.passes_append.mpr ⟨lhs.passes_succ depth, passes_cons_succ (by cases op <;> rfl) ?_⟩
    rw [bracketStep_operator]
    exact rhs.passes_succ depth
  | .group opening inner closing, depth =>
    passes_cons_succ rfl (inner.passes_append.mpr ⟨inner.passes_succ (depth + 1), passes_cons_succ rfl trivial⟩)
  | .object opening fields, depth => passes_cons_succ rfl (fields.passes_succ (depth + 1))
  | .array opening items, depth => passes_cons_succ rfl (items.passes_succ (depth + 1))

theorem Fields.passes_succ : ∀ (f : Fields) (depth : Nat), Passes stop (depth + 1) f.tokens
  | .close _, _ => passes_cons_succ rfl trivial
  | .last quoted key colon value closing, depth => by
    refine passes_cons_succ (by cases quoted <;> rfl) ?_
    rw [bracketStep_keyToken]
    exact passes_cons_succ rfl (value.passes_append.mpr ⟨value.passes_succ depth, passes_cons_succ rfl trivial⟩)
  | .more quoted key colon value comma rest, depth => by
    refine passes_cons_succ (by cases quoted <;> rfl) ?_
    rw [bracketStep_keyToken]
    exact passes_cons_succ rfl
      (value.passes_append.mpr ⟨value.passes_succ depth, passes_cons_succ rfl (rest.passes_succ depth)⟩)

theorem Items.passes_succ : ∀ (f : Items) (depth : Nat), Passes stop (depth + 1) f.tokens
  | .close _, _ => passes_cons_succ rfl trivial
  | .last item _, depth =>
    item.passes_append.mpr ⟨item.passes_succ depth, passes_cons_succ rfl trivial⟩
  | .more item _ rest, depth =>
    item.passes_append.mpr ⟨item.passes_succ depth, passes_cons_succ rfl (rest.passes_succ depth)⟩

end

theorem passes_cons_zero {t : Lexeme} {ts : List Lexeme} (ht : t.node.isLayout = false) :
    Passes stop 0 (t :: ts) ↔ stop t.node = false ∧ Passes stop (bracketStep 0 t.node) ts := by
  simp [Passes, Token.isNewline_eq_false ht]

/-- Outside brackets a phrase is passed if no stop is among its outer tokens. -/
theorem Phrase.passes_zero_iff : ∀ p : Phrase, Passes stop 0 p.tokens ↔ ∀ t ∈ p.outer, stop t.node = false
  | .string _ _ | .number _ _ _ | .boolean _ _ | .identifier _ _ => by
    rw [Phrase.tokens, Phrase.outer, passes_cons_zero rfl]
    simp [Passes]
  | .unary op mark operand => by
    rw [Phrase.tokens, Phrase.outer, passes_cons_zero (by cases op <;> rfl), bracketStep_unary,
      operand.passes_zero_iff, List.forall_mem_cons]
  | .binary lhs op mark rhs => by
    rw [Phrase.tokens, Phrase.outer, lhs.passes_append, lhs.passes_zero_iff,
      passes_cons_zero (by cases op <;> rfl), bracketStep_operator, rhs.passes_zero_iff, List.forall_mem_append,
      List.forall_mem_cons]
  | .group opening inner closing => by
    have hinner : Passes stop 1 (inner.tokens ++ [⟨.symbol .closeParen, closing⟩]) :=
      inner.passes_append.mpr ⟨inner.passes_succ 0, passes_cons_succ rfl trivial⟩
    rw [Phrase.tokens, Phrase.outer, passes_cons_zero rfl, List.forall_mem_singleton]
    exact and_iff_left hinner
  | .object opening fields => by
    rw [Phrase.tokens, Phrase.outer, passes_cons_zero rfl, List.forall_mem_singleton]
    exact and_iff_left (fields.passes_succ 0)
  | .array opening items => by
    rw [Phrase.tokens, Phrase.outer, passes_cons_zero rfl, List.forall_mem_singleton]
    exact and_iff_left (items.passes_succ 0)

theorem Phrase.operandLength_append {p : Phrase} (h : ∀ t ∈ p.outer, stop t.node = false) (us : List Lexeme) :
    operandLength stop 0 (p.tokens ++ us) = p.tokens.length + operandLength stop 0 us := by
  rw [Reading.operandLength_append (p.passes_zero_iff.mpr h), p.bracketsOpen_tokens]

/-- If an operand ends with a phrase, no stop is among the outer tokens of the phrase, and one follows. -/
theorem Phrase.of_operandLength_append {p : Phrase} {us : List Lexeme}
    (h : operandLength stop 0 (p.tokens ++ us) = p.tokens.length) :
    (∀ t ∈ p.outer, stop t.node = false) ∧ operandLength stop 0 us = 0 := by
  have houter := p.passes_zero_iff.mp (passes_of_le (Nat.le_of_eq h.symm))
  rw [Phrase.operandLength_append houter] at h
  exact ⟨houter, by omega⟩

end Expr

end BranchingStory
