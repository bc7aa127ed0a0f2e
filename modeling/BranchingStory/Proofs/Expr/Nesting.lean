import BranchingStory.Proofs.Expr.Phrases

/-! # Nesting and depth

The nesting that is counted from the tokens of a phrase is the depth of its tree. In front of an
operand the count stands at the depth of the innermost open bracket, raised by the prefix operators
read since; behind the operand it is back at that bracket. -/

namespace BranchingStory.Expr
set_option autoImplicit false

namespace Nesting

def run (n : Nesting) (ts : List Lexeme) : Nesting := ts.foldl (fun n t => n.step t.node) n

theorem run_append (n : Nesting) (ts us : List Lexeme) : n.run (ts ++ us) = (n.run ts).run us :=
  List.foldl_append

/-- Behind a bracket that opens. -/
def opened (n : Nesting) : Nesting := ⟨n.depth + 1, (n.depth + 1) :: n.bases, true⟩

/-- Behind the bracket that closes the innermost open one. -/
def closed (n : Nesting) : Nesting := ⟨n.bases.tail.headD 0, n.bases.tail, false⟩

/-- Does the count stand in front of an operand that no prefix operator has been read for? -/
structure Rests (n : Nesting) : Prop where
  next : n.operandNext = true
  depth_eq : n.depth = n.base

theorem rests_opened (n : Nesting) : n.opened.Rests := ⟨rfl, rfl⟩

theorem Rests.beforeOperand_eq {n : Nesting} (h : n.Rests) : n.beforeOperand = n := by
  obtain ⟨depth, bases, next⟩ := n
  obtain ⟨rfl, hdepth⟩ := h
  obtain rfl : depth = bases.headD 0 := hdepth
  rfl

theorem step_unary {n : Nesting} (h : n.operandNext = true) (op : UnaryOp) : n.step op.token = n.deepen := by
  cases op <;> simp [step, UnaryOp.token, h]

theorem step_operator (n : Nesting) (op : BinaryOp) : n.afterOperand.step op.token = n.beforeOperand := by
  cases op <;> rfl

theorem step_word (n : Nesting) {name : String} (h : name ∉ ["and", "or", "not"]) :
    n.step (.word name) = n.afterOperand := by
  simp only [List.mem_cons, List.not_mem_nil, not_or, or_false] at h
  simp [step, h]

theorem step_keyToken (n : Nesting) {quoted : Bool} {key : Name}
    (h : quoted = false → key.node ∉ Token.reservedWords) : n.step (keyToken quoted key) = n.afterOperand := by
  cases quoted with
  | true => rfl
  | false =>
    refine n.step_word fun hmem => h rfl ?_
    exact List.mem_append_left ["true", "false"] hmem

end Nesting

open Nesting

theorem deepest_append (n : Nesting) (ts us : List Lexeme) :
    deepest n (ts ++ us) = max (deepest n ts) (deepest (n.run ts) us) := by
  induction ts generalizing n with
  | nil => simp [deepest, run]
  | cons t ts ih =>
    rw [List.cons_append, deepest, ih, deepest, Nat.max_assoc]
    rfl

/-- Do the tokens lead the count from one state to another, and as deep as this below where it stood? -/
structure Leads (n : Nesting) (ts : List Lexeme) (behind : Nesting) (depth : Nat) : Prop where
  run_eq : n.run ts = behind
  deepest_eq : max n.depth (deepest n ts) = n.depth + depth

namespace Leads
variable {n behind behind' : Nesting} {ts us : List Lexeme} {depth depth' : Nat}

theorem token {t : Lexeme} (h : n.step t.node = behind) (hle : behind.depth ≤ n.depth) :
    Leads n [t] behind 0 where
  run_eq := h
  deepest_eq := by
    rw [deepest, deepest, h]
    omega

theorem append (h : Leads n ts behind depth) (h' : Leads behind us behind' depth')
    (heq : behind.depth = n.depth) : Leads n (ts ++ us) behind' (max depth depth') where
  run_eq := by rw [run_append, h.run_eq, h'.run_eq]
  deepest_eq := by
    have hfront := h.deepest_eq
    have hback := h'.deepest_eq
    rw [deepest_append, h.run_eq]
    omega

theorem cons {t : Lexeme} (h : n.step t.node = behind) (hdepth : behind.depth = n.depth + 1)
    (h' : Leads behind us behind' depth) : Leads n (t :: us) behind' (depth + 1) where
  run_eq := by
    rw [← h'.run_eq, ← h]
    rfl
  deepest_eq := by
    have hback := h'.deepest_eq
    rw [deepest, h]
    omega

/-- A token that leaves the depth as it is counts for nothing. -/
theorem skip {t : Lexeme} (h : n.step t.node = behind) (hdepth : behind.depth = n.depth)
    (h' : Leads behind us behind' depth) : Leads n (t :: us) behind' depth := by
  have htoken : Leads n [t] behind 0 := .token h (Nat.le_of_eq hdepth)
  simpa using htoken.append h' hdepth

end Leads

mutual

/-- In front of a phrase no prefix operator has been read that is not part of it, unless it is an operand. -/
theorem Phrase.leads : ∀ {p : Phrase} {level : Nat} {n : Nesting}, p.Fits level → n.operandNext = true →
    n.base ≤ n.depth → (operandLevel ≤ level ∨ n.depth = n.base) → Leads n p.tokens n.afterOperand p.expr.depth
  | .string span text, level, n, hp, hnext, hbase, hdepth => .token rfl hbase
  | .number span value spelling, level, n, hp, hnext, hbase, hdepth => .token rfl hbase
  | .boolean span value, level, n, hp, hnext, hbase, hdepth =>
    .token (n.step_word (by cases value <;> decide)) hbase
  | .identifier span name, level, n, hp, hnext, hbase, hdepth => by
    have hstep : n.step (keyToken false ⟨name, span⟩) = n.afterOperand := n.step_keyToken fun _ => hp
    exact .token hstep hbase
  | .unary op mark operand, level, n, hp, hnext, hbase, hdepth =>
    .cons (step_unary hnext op) rfl
      (Phrase.leads (p := operand) hp rfl (Nat.le_succ_of_le hbase) (.inl (Nat.le_refl _)))
  | .binary lhs op mark rhs, level, n, hp, hnext, hbase, hdepth => by
    obtain ⟨hle, hlhs, hrhs⟩ := hp
    have heq : n.depth = n.base := hdepth.resolve_left fun h =>
      absurd (Nat.le_trans h hle) (Nat.not_le.mpr op.level_lt)
    have hfront := Phrase.leads hlhs hnext hbase (.inr heq)
    have hback := Phrase.leads (n := n.beforeOperand) hrhs rfl (Nat.le_refl _) (.inr rfl)
    exact hfront.append (.skip (step_operator n op) rfl hback) heq.symm
  | .group opening inner closing, level, n, hp, hnext, hbase, hdepth => by
    have hinner := Phrase.leads (p := inner) (n := n.opened) hp rfl (Nat.le_refl _) (.inr rfl)
    have hclose : Leads n.opened.afterOperand [⟨.symbol .closeParen, closing⟩] n.afterOperand 0 :=
      .token rfl (Nat.le_succ_of_le hbase)
    have hrest : Leads n.opened (inner.tokens ++ [⟨.symbol .closeParen, closing⟩])
        n.afterOperand inner.expr.depth := by
      simpa using hinner.append hclose rfl
    exact .cons rfl rfl hrest
  | .object opening fields, level, n, hp, hnext, hbase, hdepth =>
    .cons rfl rfl (Fields.leads (n := n.opened) hp n.rests_opened (Nat.le_succ_of_le hbase))
  | .array opening items, level, n, hp, hnext, hbase, hdepth =>
    .cons rfl rfl (Items.leads (n := n.opened) hp n.rests_opened (Nat.le_succ_of_le hbase))

theorem Fields.leads : ∀ {f : Fields} {n : Nesting}, f.Fit → n.Rests → n.closed.depth ≤ n.depth →
    Leads n f.tokens n.closed (depthOfFields f.entries)
  | .close closing, n, hf, hn, hclosed => .token rfl hclosed
  | .last quoted key colon value closing, n, hf, hn, hclosed => by
    have hvalue := Phrase.leads hf.2 hn.next (Nat.le_of_eq hn.depth_eq.symm) (.inr hn.depth_eq)
    have hclose : Leads n.afterOperand [⟨.symbol .closeBrace, closing⟩] n.closed 0 :=
      .token rfl (Nat.le_trans hclosed (Nat.le_of_eq hn.depth_eq))
    have hcolon : Leads n.afterOperand (⟨.symbol .colon, colon⟩ :: (value.tokens ++ _)) n.closed _ :=
      .skip hn.beforeOperand_eq hn.depth_eq (hvalue.append hclose hn.depth_eq.symm)
    exact .skip (n.step_keyToken hf.1) hn.depth_eq.symm hcolon
  | .more quoted key colon value comma rest, n, hf, hn, hclosed => by
    have hvalue := Phrase.leads hf.2.1 hn.next (Nat.le_of_eq hn.depth_eq.symm) (.inr hn.depth_eq)
    have hrest : Leads n.afterOperand (⟨.symbol .comma, comma⟩ :: rest.tokens) n.closed _ :=
      .skip hn.beforeOperand_eq hn.depth_eq (Fields.leads hf.2.2 hn hclosed)
    have hcolon : Leads n.afterOperand (⟨.symbol .colon, colon⟩ :: (value.tokens ++ _)) n.closed _ :=
      .skip hn.beforeOperand_eq hn.depth_eq (hvalue.append hrest hn.depth_eq.symm)
    exact .skip (n.step_keyToken hf.1) hn.depth_eq.symm hcolon

theorem Items.leads : ∀ {f : Items} {n : Nesting}, f.Fit → n.Rests → n.closed.depth ≤ n.depth →
    Leads n f.tokens n.closed (depthOfItems f.exprs)
  | .close closing, n, hf, hn, hclosed => .token rfl hclosed
  | .last item closing, n, hf, hn, hclosed => by
    have hitem := Phrase.leads hf hn.next (Nat.le_of_eq hn.depth_eq.symm) (.inr hn.depth_eq)
    have hclose : Leads n.afterOperand [⟨.symbol .closeBracket, closing⟩] n.closed 0 :=
      .token rfl (Nat.le_trans hclosed (Nat.le_of_eq hn.depth_eq))
    exact hitem.append hclose hn.depth_eq.symm
  | .more item comma rest, n, hf, hn, hclosed => by
    have hitem := Phrase.leads hf.1 hn.next (Nat.le_of_eq hn.depth_eq.symm) (.inr hn.depth_eq)
    have hrest : Leads n.afterOperand (⟨.symbol .comma, comma⟩ :: rest.tokens) n.closed _ :=
      .skip hn.beforeOperand_eq hn.depth_eq (Items.leads hf.2 hn hclosed)
    exact hitem.append hrest hn.depth_eq.symm

end

/-- The nesting of a phrase can be counted before it is read. -/
theorem Phrase.nesting_tokens {p : Phrase} (h : p.Fits 0) : nesting p.tokens = p.expr.depth := by
  have hleads := Phrase.leads (n := .start) h rfl (Nat.le_refl 0) (.inr rfl)
  simpa [nesting, Nesting.start] using hleads.deepest_eq

/-! ## The grammar -/

theorem parse?_eq_some_iff {ts : List Lexeme} {e : Expr} :
    parse? ts = some e ↔ ∃ p : Phrase, p.Derives ts ∧ p.expr = e ∧ e.depth ≤ maxNesting := by
  constructor
  · intro h
    rw [parse?] at h
    split at h
    · exact absurd h (by simp)
    next hnesting =>
    split at h
    · next e' hlt hread =>
      obtain rfl := Option.some.inj h
      obtain ⟨p, hp, rfl, rfl⟩ := exists_phrase_of_parseAt (Nat.zero_le _) ⟨hlt, hread⟩
      rw [List.append_nil, p.nesting_tokens hp] at hnesting
      exact ⟨p, ⟨hp, (List.append_nil _).symm⟩, rfl, Nat.le_of_not_lt hnesting⟩
    · exact absurd h (by simp)
  · rintro ⟨p, ⟨hp, rfl⟩, rfl, hdepth⟩
    have hyields := p.read.at (Nat.zero_le _) hp (stops_nil 0)
    rw [List.append_nil] at hyields
    obtain ⟨hlt, hread⟩ := hyields
    rw [parse?, if_neg (by rw [Phrase.nesting_tokens hp]; exact Nat.not_lt.mpr hdepth), hread]

/-- A phrase is read as its tree, unless it is nested too deeply. -/
theorem Phrase.parse?_tokens {p : Phrase} (h : p.Fits 0) :
    parse? p.tokens = if p.expr.depth ≤ maxNesting then some p.expr else none := by
  split
  · next hdepth => exact parse?_eq_some_iff.mpr ⟨p, ⟨h, rfl⟩, rfl, hdepth⟩
  · next hdepth =>
    refine Option.eq_none_iff_forall_ne_some.mpr fun e he => ?_
    obtain ⟨q, ⟨hq, htokens⟩, rfl, hle⟩ := parse?_eq_some_iff.mp he
    obtain rfl := Phrase.eq_of_tokens_eq hq h htokens
    exact hdepth hle

/-- The parser is exact. It returns an expression if and only if the grammar derives all tokens as that
expression and the expression is not nested too deeply; no two phrases have the same tokens; and each
part of an expression has the span of the tokens it is written with. -/
theorem parse?_exact :
    (∀ ts e, parse? ts = some e ↔ ∃ p : Phrase, p.Derives ts ∧ p.expr = e ∧ e.depth ≤ maxNesting) ∧
      (∀ ts (p q : Phrase), p.Derives ts → q.Derives ts → p = q) ∧
      ∀ p : Phrase, ∀ e ∈ p.expr.subtrees, OfTokens p.tokens e := by
  refine ⟨fun ts e => parse?_eq_some_iff, fun ts p q hp hq => ?_, fun p e he => p.ofTokens_of_mem_subtrees he⟩
  exact Phrase.eq_of_tokens_eq hp.1 hq.1 (hp.2.trans hq.2.symm)

/-- The difference `a - b - c`, the left one of its operators inside the right one. -/
def differences : Phrase :=
  .binary (.binary (.identifier ⟨0, 1⟩ "a") .subtract ⟨2, 3⟩ (.identifier ⟨4, 5⟩ "b")) .subtract ⟨6, 7⟩
    (.identifier ⟨8, 9⟩ "c")

theorem differences_derives : differences.Derives differences.tokens :=
  ⟨⟨Nat.zero_le _, ⟨Nat.le_refl _, by simp [Phrase.Fits, Token.reservedWords], by
    simp [Phrase.Fits, Token.reservedWords]⟩, by simp [Phrase.Fits, Token.reservedWords]⟩, rfl⟩

theorem parse?_exact_differences :
    parse? differences.tokens = some differences.expr ∧
      ¬ (Phrase.binary (.identifier ⟨0, 1⟩ "a") .subtract ⟨2, 3⟩
          (.binary (.identifier ⟨4, 5⟩ "b") .subtract ⟨6, 7⟩ (.identifier ⟨8, 9⟩ "c"))).Derives
            differences.tokens ∧
      OfTokens differences.tokens (.identifier ⟨4, 5⟩ "b") := by
  refine ⟨?_, fun h => ?_, ?_⟩
  · exact (parse?_exact.1 _ _).mpr ⟨differences, differences_derives, rfl, by decide⟩
  · have hsame := parse?_exact.2.1 _ _ _ differences_derives h
    simp [differences] at hsame
  · exact parse?_exact.2.2 differences _ (by simp [differences, Phrase.expr, subtrees])

end BranchingStory.Expr
