import BranchingStory.Proofs.Document.Lines
import BranchingStory.Proofs.Document.Statements

/-! # Tokens that reading passes

A cursor that goes on passes some tokens, whose proper ones tell where it has come to. A line without an
issue is opened and passed as a line of the grammar, and blank lines with an indentation behind them are
the way into a block. -/

namespace BranchingStory
open Token
set_option autoImplicit false

/-! ## Tokens of lines -/

/-- Can the token be part of an operand? -/
def Token.InOperand (t : Token) : Prop := t.isLayout = false ∧ t ≠ .symbol .assign ∧ ∀ text, t ≠ .unknown text

namespace Expr

theorem inOperand_operator (op : BinaryOp) : op.token.InOperand := by
  cases op <;> exact ⟨rfl, by simp [BinaryOp.token]⟩

theorem inOperand_unary (op : UnaryOp) : op.token.InOperand := by
  cases op <;> exact ⟨rfl, by simp [UnaryOp.token]⟩

theorem inOperand_keyToken (quoted : Bool) (key : Name) : (keyToken quoted key).InOperand := by
  cases quoted <;> exact ⟨rfl, by simp [keyToken]⟩

mutual

theorem Phrase.inOperand : ∀ p : Phrase, ∀ t ∈ p.tokens, t.node.InOperand
  | .string _ _ | .number _ _ _ | .boolean _ _ | .identifier _ _ => by
    simp [Phrase.tokens, InOperand, isLayout]
  | .unary op mark operand =>
    List.forall_mem_cons.mpr ⟨inOperand_unary op, operand.inOperand⟩
  | .binary lhs op mark rhs =>
    List.forall_mem_append.mpr ⟨lhs.inOperand, List.forall_mem_cons.mpr ⟨inOperand_operator op, rhs.inOperand⟩⟩
  | .group opening inner closing =>
    List.forall_mem_cons.mpr ⟨⟨rfl, by simp⟩, List.forall_mem_append.mpr ⟨inner.inOperand, by
      simp [InOperand, isLayout]⟩⟩
  | .object opening fields => List.forall_mem_cons.mpr ⟨⟨rfl, by simp⟩, fields.inOperand⟩
  | .array opening items => List.forall_mem_cons.mpr ⟨⟨rfl, by simp⟩, items.inOperand⟩

theorem Fields.inOperand : ∀ f : Fields, ∀ t ∈ f.tokens, t.node.InOperand
  | .close _ => by simp [Fields.tokens, InOperand, isLayout]
  | .last quoted key colon value closing =>
    List.forall_mem_cons.mpr ⟨inOperand_keyToken quoted key, List.forall_mem_cons.mpr ⟨⟨rfl, by simp⟩,
      List.forall_mem_append.mpr ⟨value.inOperand, by simp [InOperand, isLayout]⟩⟩⟩
  | .more quoted key colon value comma rest =>
    List.forall_mem_cons.mpr ⟨inOperand_keyToken quoted key, List.forall_mem_cons.mpr ⟨⟨rfl, by simp⟩,
      List.forall_mem_append.mpr ⟨value.inOperand, List.forall_mem_cons.mpr ⟨⟨rfl, by simp⟩, rest.inOperand⟩⟩⟩⟩

theorem Items.inOperand : ∀ f : Items, ∀ t ∈ f.tokens, t.node.InOperand
  | .close _ => by simp [Items.tokens, InOperand, isLayout]
  | .last item closing =>
    List.forall_mem_append.mpr ⟨item.inOperand, by simp [InOperand, isLayout]⟩
  | .more item comma rest =>
    List.forall_mem_append.mpr ⟨item.inOperand, List.forall_mem_cons.mpr ⟨⟨rfl, by simp⟩, rest.inOperand⟩⟩

end

theorem Spelled.inOperand {stop : Token → Bool} {ts : List Lexeme} {e : Expr} (h : Spelled stop ts e) :
    ∀ t ∈ ts, t.node.InOperand := by
  obtain ⟨p, ⟨-, rfl⟩, -⟩ := h
  exact p.inOperand

theorem Spelled.proper {stop : Token → Bool} {ts : List Lexeme} {e : Expr} (h : Spelled stop ts e) :
    ∀ t ∈ ts, t.node.isLayout = false := fun t ht => (h.inOperand t ht).1

end Expr

namespace Grammar
variable {context : Context} {word : Name} {head : Head} {ts : List Lexeme} {first : FirstLine}

theorem Guard.proper {stop : Token → Bool} {guard : Option Operand} (h : Guard stop ts guard) :
    ∀ t ∈ ts, t.node.isLayout = false := by
  cases h with
  | absent => simp
  | present he => exact List.forall_mem_cons.mpr ⟨rfl, he.proper⟩

theorem LineForm.proper (h : LineForm word head ts first) : ∀ t ∈ ts, t.node.isLayout = false := by
  cases h with
  | part hkind hguard =>
    exact List.forall_mem_cons.mpr ⟨rfl, List.forall_mem_append.mpr ⟨hguard.proper, by simp [isLayout]⟩⟩
  | choice hguard => exact List.forall_mem_append.mpr ⟨hguard.proper, by simp [isLayout]⟩
  | option hguard hend =>
    refine List.forall_mem_cons.mpr ⟨rfl, List.forall_mem_append.mpr ⟨hguard.proper, ?_⟩⟩
    cases hend <;> simp [isLayout]
  | guard he => exact he.proper
  | set he => exact List.forall_mem_cons.mpr ⟨rfl, List.forall_mem_cons.mpr ⟨rfl, he.proper⟩⟩
  | emit hpayload =>
    refine List.forall_mem_cons.mpr ⟨rfl, ?_⟩
    cases hpayload with
    | absent => simp
    | present he => exact List.forall_mem_cons.mpr ⟨rfl, he.proper⟩
  | assignment he => exact List.forall_mem_cons.mpr ⟨rfl, he.proper⟩
  | _ => simp [isLayout]

/-- Only an assignment has its equals sign behind its first word. -/
theorem LineForm.assign_iff (h : LineForm word head ts first) :
    (ts.head?.map (·.node)) = some (.symbol .assign) ↔ head = .assignment := by
  cases h with
  | part hkind hguard => simp
  | choice hguard => cases hguard <;> simp
  | guard he =>
    have hnot : ∀ t ∈ ts.head?, t.node ≠ .symbol .assign := fun t ht =>
      (he.inOperand t (List.mem_of_mem_head? ht)).2.1
    simpa using hnot
  | _ => simp

theorem LineForm.context_ne (h : LineForm word head ts first) {header : Header} {inner : Context}
    {required : Bool} (hfirst : first = .opening header inner required) : inner ≠ .topLevel := by
  cases h with
  | @part kind _ _ _ _ hkind hguard =>
    cases hfirst
    cases kind <;> simp [DeclarationKind.context]
  | option hguard hend =>
    cases hend with
    | body =>
      cases hfirst
      simp
    | goto => cases hfirst
    | nothing => cases hfirst
  | _ => cases hfirst <;> simp

end Grammar

/-! ## Cursors and the tokens they pass -/

namespace Cursor

/-- Does the cursor come to `d` by passing these tokens? -/
def Through (c : Cursor) (ts : List Lexeme) (d : Cursor) : Prop := c.rest = ts ++ d.rest ∧ d = c.pass ts.length

variable {c d e : Cursor} {ts us : List Lexeme}

theorem through_nil (c : Cursor) : c.Through [] c := ⟨rfl, (pass_zero c).symm⟩

theorem through_pass {rest : List Lexeme} (h : c.rest = ts ++ rest) : c.Through ts (c.pass ts.length) := by
  refine ⟨?_, rfl⟩
  rw [pass, h, List.drop_left]

/-- Passing a whole line with its end. -/
theorem through_line {words rest : List Lexeme} {stop : Span} {n : Nat}
    (h : c.rest = words ++ mark .newline stop :: rest) (hn : n = words.length + 1) :
    c.Through (words ++ [mark .newline stop]) (c.pass n) ∧ (c.pass n).rest = rest := by
  have hsplit : c.rest = (words ++ [mark .newline stop]) ++ rest := by rw [h, List.append_assoc]; rfl
  have hpass := through_pass hsplit
  rw [List.length_append, List.length_singleton, ← hn] at hpass
  exact ⟨hpass, (List.append_cancel_left (hsplit.symm.trans hpass.1)).symm⟩

theorem Through.trans (h : c.Through ts d) (h' : d.Through us e) : c.Through (ts ++ us) e := by
  obtain ⟨hrest, rfl⟩ := h
  obtain ⟨hrest', rfl⟩ := h'
  refine ⟨by rw [hrest, hrest', List.append_assoc], ?_⟩
  rw [pass_add, List.length_append]

theorem Through.cons {t : Lexeme} {rest : List Lexeme} (hrest : c.rest = t :: rest)
    (h : (c.pass 1).Through ts d) :
    c.Through (t :: ts) d :=
  (through_pass (by rw [hrest]; rfl) : c.Through [t] _).trans h

theorem lastEnd_foldl (lastEnd : Nat) (ts : List Lexeme) :
    ts.foldl endAfter lastEnd = ((proper ts).getLast?.map (·.span.stop)).getD lastEnd := by
  induction ts generalizing lastEnd with
  | nil => rfl
  | cons t ts ih =>
    rw [List.foldl_cons, ih, proper, proper, List.filter_cons, endAfter]
    cases ht : t.node.isLayout with
    | true => simp
    | false =>
      rw [if_neg (by simp), if_pos (by simp), List.getLast?_cons]
      cases (ts.filter fun t => !t.node.isLayout).getLast? <;> rfl

/-- The last end is that of the proper tokens that were passed. -/
theorem Through.lastEnd_eq (h : c.Through ts d) (hproper : proper ts ≠ []) :
    d.lastEnd = (spanOf (proper ts)).stop := by
  obtain ⟨hrest, rfl⟩ := h
  have htake : c.rest.take ts.length = ts := by rw [hrest, List.take_left]
  show (c.rest.take ts.length).foldl endAfter c.lastEnd = _
  rw [htake, lastEnd_foldl, spanOf, List.getLast?_eq_some_getLast hproper]
  rfl

end Cursor

/-! ## Opening a line -/

namespace Statement
open Grammar
variable {context : Context} {c d : Cursor} {t : Lexeme} {first : FirstLine}

theorem head?_eq_some {rest : List Lexeme} {head : Head} {word : Name}
    (h : head? context (t :: rest) = some (head, word)) :
    t = ⟨.word word.node, word.span⟩ ∧ context.allows head = true ∧
      (head = .assignment ∧ (rest.head?.map (·.node)) = some (.symbol .assign) ∨
        (rest.head?.map (·.node)) ≠ some (.symbol .assign) ∧ Head.ofWord? word.node = some head) := by
  obtain ⟨hhead, hallowed⟩ := Option.filter_eq_some_iff.mp h
  obtain ⟨node, span⟩ := t
  cases node with
  | word w =>
    rw [Head.ofLexemes?] at hhead
    split at hhead
    · next hassign =>
      obtain ⟨rfl, rfl⟩ := Prod.mk.inj (Option.some.inj hhead)
      exact ⟨rfl, hallowed, .inl ⟨rfl, hassign⟩⟩
    · next hassign =>
      obtain ⟨found, hfound, hpair⟩ := Option.map_eq_some_iff.mp hhead
      obtain ⟨rfl, rfl⟩ := Prod.mk.inj hpair
      exact ⟨rfl, hallowed, .inr ⟨hassign, hfound⟩⟩
  | _ => exact absurd hhead (by simp [Head.ofLexemes?])

/-- A line without an issue is a line of the grammar. -/
theorem Opens.line {n : Nat} (h : Opens context c t first [] d) (hshaped : Shaped n c.rest) :
    ∃ words stop, LineIn context words first ∧ words.head? = some t ∧
      c.Through (words ++ [mark .newline stop]) d ∧ Shaped n d.rest := by
  obtain ⟨rest, head, word, hrest, hproper, hhead, hvalue, rfl⟩ := h
  rw [hrest] at hshaped hhead
  obtain ⟨words, stop, behind, rfl, hwords, hbehind⟩ := hshaped.of_proper hproper
  obtain ⟨rfl, hallowed, hword⟩ := head?_eq_some hhead
  have hone : (c.pass 1).OnLine words := ⟨stop, behind, Cursor.rest_pass_one hrest, hwords⟩
  have hassign : head = .assignment → ∃ span ts, words = ⟨.symbol .assign, span⟩ :: ts := by
    rintro rfl
    obtain ⟨-, hassign⟩ | ⟨-, hnone⟩ := hword
    · cases words with
      | nil => simp [mark] at hassign
      | cons u us =>
        obtain ⟨node, span⟩ := u
        obtain rfl : node = .symbol .assign := Option.some.inj hassign
        exact ⟨span, us, rfl⟩
    · exact absurd hnone (ofWord?_ne_assignment _)
  obtain ⟨hform, hnext⟩ := (Reading.clean_firstLine_iff hone hassign).mp ⟨hvalue, rfl⟩
  rw [Cursor.pass_add, Nat.add_comm 1] at hnext
  have hline : c.rest = (⟨.word word.node, word.span⟩ :: words) ++ mark .newline stop :: behind := hrest
  obtain ⟨hthrough, hpass⟩ := Cursor.through_line hline (n := (words.length + 1) + 1) rfl
  rw [← hnext] at hthrough hpass
  exact ⟨_, stop, .intro (hword.imp And.left And.right) hallowed hform, rfl, hthrough, hpass ▸ hbehind⟩

/-- A line of the grammar is read without an issue. -/
theorem opens_of_line {words : List Lexeme} {stop : Span} {rest : List Lexeme}
    (hline : LineIn context words first)
    (hrest : c.rest = words ++ mark .newline stop :: rest) :
    ∃ t d, Opens context c t first [] d ∧ words.head? = some t ∧ c.Through (words ++ [mark .newline stop]) d ∧
      d.rest = rest := by
  obtain @⟨word, head, ts, _, hhead, hallowed, hform⟩ := hline
  have hone : (c.pass 1).OnLine ts := ⟨stop, rest, Cursor.rest_pass_one hrest, hform.proper⟩
  have hassign : (((ts ++ mark .newline stop :: rest).head?).map (·.node)) = some (.symbol .assign) ↔
      head = .assignment := by
    rw [← hform.assign_iff]
    cases ts <;> simp [mark]
  have hfound : Head.ofLexemes? c.rest = some (head, word) := by
    rw [hrest, List.cons_append, Head.ofLexemes?]
    split
    · next h => rw [hassign.mp h]
    · next h =>
      rw [hhead.resolve_left fun heq => h (hassign.mpr heq)]
      rfl
  have hstarts : head = .assignment → ∃ span us, ts = ⟨.symbol .assign, span⟩ :: us := by
    rintro rfl
    cases hform
    exact ⟨_, _, rfl⟩
  obtain ⟨hvalue, hnext⟩ := (Reading.clean_firstLine_iff hone hstarts).mpr ⟨hform, rfl⟩
  rw [Cursor.pass_add, Nat.add_comm 1] at hnext
  obtain ⟨hthrough, hpass⟩ := Cursor.through_line hrest (n := (ts.length + 1) + 1) rfl
  rw [← hnext] at hthrough hpass
  exact ⟨_, _, ⟨_, head, word, hrest, rfl, Option.filter_eq_some_iff.mpr ⟨hfound, hallowed⟩, hvalue, rfl⟩, rfl,
    hthrough, hpass⟩

end Statement

namespace Cursor
variable {c : Cursor}

theorem takeWhile_blanks (blanks : List Span) {rest : List Lexeme}
    (h : ∀ t ∈ rest.head?, t.node ≠ .layout .blankLine) :
    ((blanks.map (mark .blankLine) ++ rest).takeWhile (·.node == .layout .blankLine)).length =
      blanks.length := by
  have hblanks : ∀ t ∈ blanks.map (mark .blankLine), (t.node == .layout .blankLine) = true := by
    intro t ht
    obtain ⟨span, -, rfl⟩ := List.mem_map.mp ht
    rfl
  rw [List.takeWhile_append_of_pos hblanks, List.length_append, List.length_map]
  cases rest with
  | nil => rfl
  | cons t rest => simp [h t rfl]

theorem exists_blanks (ts : List Lexeme) : ∃ (blanks : List Span) (rest : List Lexeme),
    ts = blanks.map (mark .blankLine) ++ rest ∧
      (ts.takeWhile (·.node == .layout .blankLine)).length = blanks.length := by
  generalize hfront : ts.takeWhile (·.node == .layout .blankLine) = front
  obtain ⟨rest, hrest⟩ : front <+: ts := hfront ▸ List.takeWhile_prefix _
  have hblanks : (front.map (·.span)).map (mark .blankLine) = front := by
    rw [List.map_map]
    refine (List.map_congr_left fun t ht => ?_).trans (List.map_id front)
    have hnode : t.node = .layout .blankLine := by
      rw [← hfront] at ht
      simpa using List.all_eq_true.mp List.all_takeWhile t ht
    obtain ⟨node, span⟩ := t
    rw [show node = .layout .blankLine from hnode]
    rfl
  exact ⟨front.map (·.span), rest, by rw [hblanks, hrest], (List.length_map ..).symm⟩

theorem rest_pass_blanks {blanks : List Span} {rest : List Lexeme}
    (h : c.rest = blanks.map (mark .blankLine) ++ rest) : (c.pass blanks.length).rest = rest := by
  rw [pass, h]
  exact List.drop_left' (List.length_map ..)

/-- An indentation is ahead if blank lines and its mark are. -/
theorem indentAhead?_eq_some_iff {n : Nat} :
    c.indentAhead? = some n ↔ ∃ (blanks : List Span) (opening : Span) (rest : List Lexeme), blanks.length = n ∧
      c.rest = blanks.map (mark .blankLine) ++ mark .indent opening :: rest := by
  constructor
  · intro h
    unfold indentAhead? at h
    dsimp only at h
    split at h
    · next hpeek =>
      obtain rfl := Option.some.inj h
      obtain ⟨blanks, behind, hrest, hlength⟩ := exists_blanks c.rest
      rw [hlength, peek?, rest_pass_blanks hrest] at hpeek
      cases behind with
      | nil => exact absurd hpeek (by simp)
      | cons t behind =>
        obtain ⟨node, span⟩ := t
        obtain rfl : node = .layout .indent := Option.some.inj hpeek
        exact ⟨blanks, span, behind, hlength.symm, hrest⟩
    · exact absurd h (by simp)
  · rintro ⟨blanks, opening, rest, rfl, hrest⟩
    have hlength : (c.rest.takeWhile (·.node == .layout .blankLine)).length = blanks.length := by
      rw [hrest]
      exact takeWhile_blanks blanks (by simp [mark])
    have hbehind := rest_pass_blanks hrest
    unfold indentAhead?
    dsimp only
    rw [hlength, if_pos (by rw [peek?, hbehind]; rfl)]

end Cursor

end BranchingStory
