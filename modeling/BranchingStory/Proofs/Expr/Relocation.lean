import BranchingStory.Proofs.Document.Openings
import BranchingStory.Proofs.Document.Respelling

/-! # Expressions that are moved

Tokens that stand elsewhere are read as the same expression, each part of it elsewhere too; and what cannot
be read stays so. A move tells where things begin and where they end, and it may change the texts that are no
tokens, since nothing is ever read from these. -/

namespace BranchingStory
set_option autoImplicit false

/-- Where what begins at an offset begins, and where what ends at an offset ends, once it is moved. What is not
empty before is not turned around. -/
structure Relocation where
  start : Nat → Nat
  stop : Nat → Nat
  unknown : String → String
  ordered {o l : Nat} : o < l → start o ≤ stop l

namespace Relocation

/-- Everything stays where it is. -/
def stay : Relocation := ⟨id, id, id, Nat.le_of_lt⟩

/-- Everything is moved on by the same distance. -/
def forward (distance : Nat) : Relocation := ⟨(· + distance), (· + distance), id, fun h => by omega⟩

variable (r : Relocation)

def span (s : Span) : Span := ⟨r.start s.start, r.stop s.stop⟩

def located {α : Type} (x : Located α) : Located α := ⟨x.node, r.span x.span⟩

/-! ## Tokens -/

def token : Token → Token
  | .unknown text => .unknown (r.unknown text)
  | t => t

def lexeme (t : Lexeme) : Lexeme := ⟨r.token t.node, r.span t.span⟩

/-- A token that is none of the unknown texts is met exactly where it was met before. -/
theorem token_eq_iff {t u : Token} (hu : ∀ text, u ≠ .unknown text) : r.token t = u ↔ t = u := by
  cases t with
  | unknown text => exact iff_of_false (fun h => hu _ h.symm) fun h => hu _ h.symm
  | _ => rfl

/-- Where unknown texts are kept, every token is. -/
theorem token_eq_self (h : r.unknown = id) (t : Token) : r.token t = t := by
  cases t with
  | unknown text => rw [token, h, id]
  | _ => rfl

@[simp] theorem isLayout_token (t : Token) : (r.token t).isLayout = t.isLayout := by
  cases t <;> rfl

@[simp] theorem isNewline_token (t : Token) : (r.token t).isNewline = t.isNewline := by
  cases t <;> rfl

/-! ## Trees -/

mutual

/-- The expression with all its parts moved. -/
def expr : Expr → Expr
  | .binary s op lhs rhs => .binary (r.span s) op (expr lhs) (expr rhs)
  | .unary s op operand => .unary (r.span s) op (expr operand)
  | .group s inner => .group (r.span s) (expr inner)
  | .object s fields => .object (r.span s) (entries fields)
  | .array s items => .array (r.span s) (exprs items)
  | .string s text => .string (r.span s) text
  | .number s value => .number (r.span s) value
  | .boolean s value => .boolean (r.span s) value
  | .identifier s name => .identifier (r.span s) name

def entries : List (Name × Expr) → List (Name × Expr)
  | [] => []
  | (key, value) :: rest => (r.located key, expr value) :: entries rest

def exprs : List Expr → List Expr
  | [] => []
  | item :: rest => expr item :: exprs rest

end

mutual

theorem depth_expr : ∀ e : Expr, (r.expr e).depth = e.depth
  | .binary _ _ lhs rhs => by
    rw [expr, Expr.depth, depth_expr lhs, depth_expr rhs, Expr.depth]
  | .unary _ _ operand => congrArg (· + 1) (depth_expr operand)
  | .group _ inner => congrArg (· + 1) (depth_expr inner)
  | .object _ fields => congrArg (· + 1) (depthOfFields_entries fields)
  | .array _ items => congrArg (· + 1) (depthOfItems_exprs items)
  | .string _ _ | .number _ _ | .boolean _ _ | .identifier _ _ => rfl

theorem depthOfFields_entries : ∀ fields, Expr.depthOfFields (r.entries fields) = Expr.depthOfFields fields
  | [] => rfl
  | (_, value) :: rest => by
    rw [entries, Expr.depthOfFields, depth_expr value, depthOfFields_entries rest, Expr.depthOfFields]

theorem depthOfItems_exprs : ∀ items, Expr.depthOfItems (r.exprs items) = Expr.depthOfItems items
  | [] => rfl
  | item :: rest => by
    rw [exprs, Expr.depthOfItems, depth_expr item, depthOfItems_exprs rest, Expr.depthOfItems]

end

/-! ## Staying -/

mutual

theorem expr_stay : ∀ e : Expr, stay.expr e = e
  | .binary s op lhs rhs => by
    rw [expr, expr_stay lhs, expr_stay rhs]
    rfl
  | .unary _ _ operand => congrArg (Expr.unary _ _) (expr_stay operand)
  | .group _ inner => congrArg (Expr.group _) (expr_stay inner)
  | .object _ fields => congrArg (Expr.object _) (entries_stay fields)
  | .array _ items => congrArg (Expr.array _) (exprs_stay items)
  | .string _ _ | .number _ _ | .boolean _ _ | .identifier _ _ => rfl

theorem entries_stay : ∀ fields, stay.entries fields = fields
  | [] => rfl
  | (key, value) :: rest => by
    rw [entries, expr_stay value, entries_stay rest]
    rfl

theorem exprs_stay : ∀ items, stay.exprs items = items
  | [] => rfl
  | item :: rest => by rw [exprs, expr_stay item, exprs_stay rest]

end

theorem lexeme_stay (t : Lexeme) : stay.lexeme t = t :=
  congrArg (Located.mk · t.span) (token_eq_self stay rfl t.node)

/-! ## Phrases -/

open BranchingStory.Expr

mutual

/-- The phrase with each of its tokens moved. -/
def phrase : Phrase → Phrase
  | .string s text => .string (r.span s) text
  | .number s value spelling => .number (r.span s) value spelling
  | .boolean s value => .boolean (r.span s) value
  | .identifier s name => .identifier (r.span s) name
  | .unary op mark operand => .unary op (r.span mark) (phrase operand)
  | .binary lhs op mark rhs => .binary (phrase lhs) op (r.span mark) (phrase rhs)
  | .group opening inner closing => .group (r.span opening) (phrase inner) (r.span closing)
  | .object opening fs => .object (r.span opening) (fields fs)
  | .array opening is => .array (r.span opening) (items is)

def fields : Fields → Fields
  | .close closing => .close (r.span closing)
  | .last quoted key colon value closing =>
    .last quoted (r.located key) (r.span colon) (phrase value) (r.span closing)
  | .more quoted key colon value comma rest =>
    .more quoted (r.located key) (r.span colon) (phrase value) (r.span comma) (fields rest)

def items : Items → Items
  | .close closing => .close (r.span closing)
  | .last item closing => .last (phrase item) (r.span closing)
  | .more item comma rest => .more (phrase item) (r.span comma) (items rest)

end

theorem lexeme_unary (op : UnaryOp) (s : Span) : r.lexeme ⟨op.token, s⟩ = ⟨op.token, r.span s⟩ := by
  cases op <;> rfl

theorem lexeme_binary (op : BinaryOp) (s : Span) : r.lexeme ⟨op.token, s⟩ = ⟨op.token, r.span s⟩ := by
  cases op <;> rfl

theorem lexeme_key (quoted : Bool) (key : Name) :
    r.lexeme ⟨keyToken quoted key, key.span⟩ = ⟨keyToken quoted (r.located key), (r.located key).span⟩ := by
  cases quoted <;> rfl

mutual

theorem tokens_phrase : ∀ p : Phrase, (r.phrase p).tokens = p.tokens.map r.lexeme
  | .string _ _ | .number _ _ _ | .boolean _ _ | .identifier _ _ => rfl
  | .unary op mark operand => by
    rw [phrase, Phrase.tokens, tokens_phrase operand, Phrase.tokens, List.map_cons, lexeme_unary]
  | .binary lhs op mark rhs => by
    rw [phrase, Phrase.tokens, tokens_phrase lhs, tokens_phrase rhs, Phrase.tokens, List.map_append,
      List.map_cons, lexeme_binary]
  | .group opening inner closing => by
    rw [phrase, Phrase.tokens, tokens_phrase inner, Phrase.tokens, List.map_cons, List.map_append]
    rfl
  | .object opening fs => congrArg (List.cons _) (tokens_fields fs)
  | .array opening is => congrArg (List.cons _) (tokens_items is)

theorem tokens_fields : ∀ f : Fields, (r.fields f).tokens = f.tokens.map r.lexeme
  | .close _ => rfl
  | .last quoted key colon value closing => by
    rw [fields, Fields.tokens, tokens_phrase value, Fields.tokens, List.map_cons, lexeme_key, List.map_cons,
      List.map_append]
    rfl
  | .more quoted key colon value comma rest => by
    rw [fields, Fields.tokens, tokens_phrase value, tokens_fields rest, Fields.tokens, List.map_cons, lexeme_key,
      List.map_cons, List.map_append]
    rfl

theorem tokens_items : ∀ f : Items, (r.items f).tokens = f.tokens.map r.lexeme
  | .close _ => rfl
  | .last item closing => by
    rw [items, Items.tokens, tokens_phrase item, Items.tokens, List.map_append]
    rfl
  | .more item comma rest => by
    rw [items, Items.tokens, tokens_phrase item, tokens_items rest, Items.tokens, List.map_append]
    rfl

end

mutual

/-- Levels are told from operators and words, so a moved phrase stands on the levels that it stood on. -/
theorem fits_phrase : ∀ {p : Phrase} {level : Nat}, p.Fits level → (r.phrase p).Fits level
  | .string _ _, _, _ | .number _ _ _, _, _ | .boolean _ _, _, _ => trivial
  | .identifier _ _, _, h => h
  | .unary _ _ operand, _, h => fits_phrase (p := operand) h
  | .binary _ _ _ _, _, ⟨hlevel, hlhs, hrhs⟩ => ⟨hlevel, fits_phrase hlhs, fits_phrase hrhs⟩
  | .group _ inner _, _, h => fits_phrase (p := inner) h
  | .object _ fs, _, h => fit_fields (f := fs) h
  | .array _ is, _, h => fit_items (f := is) h

theorem fit_fields : ∀ {f : Fields}, f.Fit → (r.fields f).Fit
  | .close _, _ => trivial
  | .last _ _ _ _ _, ⟨hkey, hvalue⟩ => ⟨hkey, fits_phrase hvalue⟩
  | .more _ _ _ _ _ _, ⟨hkey, hvalue, hrest⟩ => ⟨hkey, fits_phrase hvalue, fit_fields hrest⟩

theorem fit_items : ∀ {f : Items}, f.Fit → (r.items f).Fit
  | .close _, _ => trivial
  | .last item _, h => fits_phrase (p := item) h
  | .more _ _ _, ⟨hitem, hrest⟩ => ⟨fits_phrase hitem, fit_items hrest⟩

end

theorem spanOf_map {ts : List Lexeme} (h : ts ≠ []) : spanOf (ts.map r.lexeme) = r.span (spanOf ts) := by
  obtain ⟨t, rest, rfl⟩ := List.exists_cons_of_ne_nil h
  rw [spanOf, spanOf, List.getLast?_map, List.getLast?_eq_some_getLast h]
  rfl

theorem spanOf_tokens_phrase (p : Phrase) : spanOf (r.phrase p).tokens = r.span (spanOf p.tokens) := by
  rw [r.tokens_phrase, r.spanOf_map p.tokens_ne_nil]

mutual

theorem expr_phrase : ∀ p : Phrase, (r.phrase p).expr = r.expr p.expr
  | .string _ _ | .number _ _ _ | .boolean _ _ | .identifier _ _ => rfl
  | .unary op mark operand => by
    have hspan := r.spanOf_tokens_phrase (.unary op mark operand)
    rw [Phrase.expr, expr, ← hspan, ← expr_phrase operand]
    rfl
  | .binary lhs op mark rhs => by
    have hspan := r.spanOf_tokens_phrase (.binary lhs op mark rhs)
    rw [Phrase.expr, expr, ← hspan, ← expr_phrase lhs, ← expr_phrase rhs]
    rfl
  | .group opening inner closing => by
    have hspan := r.spanOf_tokens_phrase (.group opening inner closing)
    rw [Phrase.expr, expr, ← hspan, ← expr_phrase inner]
    rfl
  | .object opening fs => by
    have hspan := r.spanOf_tokens_phrase (.object opening fs)
    rw [Phrase.expr, expr, ← hspan, ← entries_fields fs]
    rfl
  | .array opening is => by
    have hspan := r.spanOf_tokens_phrase (.array opening is)
    rw [Phrase.expr, expr, ← hspan, ← exprs_items is]
    rfl

theorem entries_fields : ∀ f : Fields, (r.fields f).entries = r.entries f.entries
  | .close _ => rfl
  | .last _ key _ value _ => by
    rw [fields, Fields.entries, expr_phrase value]
    rfl
  | .more _ key _ value _ rest => by
    rw [fields, Fields.entries, expr_phrase value, entries_fields rest]
    rfl

theorem exprs_items : ∀ f : Items, (r.items f).exprs = r.exprs f.exprs
  | .close _ => rfl
  | .last item _ => by
    rw [items, Items.exprs, expr_phrase item]
    rfl
  | .more item _ rest => by
    rw [items, Items.exprs, expr_phrase item, exprs_items rest]
    rfl

end

/-! ## Reading moved tokens -/

/-- Moved tokens are an expression exactly if the tokens are, and then the moved one. -/
theorem parse?_map (ts : List Lexeme) : parse? (ts.map r.lexeme) = (parse? ts).map r.expr := by
  by_cases hphrase : ∃ p : Phrase, p.Derives ts
  · obtain ⟨p, hp, rfl⟩ := hphrase
    rw [← r.tokens_phrase, Phrase.parse?_tokens (r.fits_phrase hp), Phrase.parse?_tokens hp, r.expr_phrase,
      r.depth_expr]
    split <;> rfl
  · have hmoved : ¬ ∃ p : Phrase, p.Derives (ts.map r.lexeme) := by
      rintro ⟨p, hp, htokens⟩
      have hnode : ∀ t ∈ ts, t.node = (r.lexeme t).node := fun t ht =>
        (r.token_eq_iff (p.inOperand _ (htokens ▸ List.mem_map_of_mem ht)).2.2).mp rfl
      have halike : Alike ts p.tokens := by
        rw [htokens, Alike, List.map_map]
        exact List.map_congr_left hnode
      obtain ⟨q, hq, hfits⟩ := p.exists_alike halike
      exact hphrase ⟨q, hfits 0 hp, hq⟩
    have hnone : ∀ {us : List Lexeme}, (¬ ∃ p : Phrase, p.Derives us) → parse? us = none := by
      refine fun hus => Option.eq_none_iff_forall_ne_some.mpr fun e he => ?_
      obtain ⟨p, hp, -⟩ := parse?_eq_some_iff.mp he
      exact hus ⟨p, hp⟩
    rw [hnone hphrase, hnone hmoved]
    rfl

end Relocation

end BranchingStory
