import BranchingStory.Expr.Parse
import BranchingStory.Proofs.Expr.Grammar

/-! # Reading expressions

What a reader takes from the front of some tokens is a phrase of the level that was asked for, and every
phrase of a level is taken as a whole where no operator follows that would go on with it. -/

namespace BranchingStory
set_option autoImplicit false

/-! ## Tokens of operators -/

theorem BinaryOp.binaryOp?_token (op : BinaryOp) : op.token.binaryOp? = some op := by
  cases op <;> rfl

theorem UnaryOp.unaryOp?_token (op : UnaryOp) : op.token.unaryOp? = some op := by
  cases op <;> rfl

theorem BinaryOp.token_injective {op other : BinaryOp} (h : op.token = other.token) : op = other := by
  have hop := op.binaryOp?_token
  rw [h, other.binaryOp?_token] at hop
  exact (Option.some.inj hop).symm

namespace Token
variable {t : Token}

theorem eq_token_of_binaryOp? {op : BinaryOp} (h : t.binaryOp? = some op) : t = op.token := by
  unfold binaryOp? at h
  split at h <;> first | (obtain rfl := Option.some.inj h; rfl) | exact absurd h (by simp)

theorem unaryOp?_eq_some_iff {op : UnaryOp} : t.unaryOp? = some op ↔ t = op.token := by
  constructor
  · intro h
    unfold unaryOp? at h
    split at h <;> first | (obtain rfl := Option.some.inj h; rfl) | exact absurd h (by simp)
  · rintro rfl
    exact op.unaryOp?_token

theorem operatorAt?_eq_some_iff {level : Nat} {op : BinaryOp} :
    t.operatorAt? level = some op ↔ t = op.token ∧ op.level = level := by
  rw [operatorAt?, Option.filter_eq_some_iff, beq_iff_eq]
  constructor
  · rintro ⟨hop, hlevel⟩
    exact ⟨eq_token_of_binaryOp? hop, hlevel⟩
  · rintro ⟨rfl, hlevel⟩
    exact ⟨op.binaryOp?_token, hlevel⟩

end Token

/-! ## What a reader yields -/

/-- Does a reader take the value and leave the rest? -/
def Yields {τ α : Type} {n : Nat} (r : Option (Front τ α n)) (a : α) (rest : List τ) : Prop :=
  ∃ h, r = some ⟨a, rest, h⟩

section Yields
variable {τ α β : Type} {m n : Nat} {a : α} {rest : List τ}

theorem yields_none : ¬ Yields (none : Option (Front τ α n)) a rest := by
  rintro ⟨h, hnone⟩
  exact absurd hnone (by simp)

theorem yields_some {b : α} {us : List τ} {h : us.length < n} :
    Yields (some ⟨b, us, h⟩) a rest ↔ b = a ∧ us = rest := by
  constructor
  · rintro ⟨h', heq⟩
    obtain ⟨rfl, rfl⟩ := Front.mk.inj (Option.some.inj heq)
    exact ⟨rfl, rfl⟩
  · rintro ⟨rfl, rfl⟩
    exact ⟨h, rfl⟩

theorem yields_bind {x : Option (Front τ β m)} {f : Front τ β m → Option (Front τ α n)} :
    Yields (x >>= f) a rest ↔ ∃ b us h, x = some ⟨b, us, h⟩ ∧ Yields (f ⟨b, us, h⟩) a rest := by
  constructor
  · rintro ⟨h, heq⟩
    obtain ⟨⟨b, us, hlt⟩, hx, hf⟩ := Option.bind_eq_some_iff.mp heq
    exact ⟨b, us, hlt, hx, h, hf⟩
  · rintro ⟨b, us, hlt, hx, h, hf⟩
    exact ⟨h, Option.bind_eq_some_iff.mpr ⟨_, hx, hf⟩⟩

theorem Yields.length_lt {r : Option (Front τ α n)} (h : Yields r a rest) : rest.length < n := h.1

theorem Yields.unique {r : Option (Front τ α n)} {b : α} {us : List τ} (h : Yields r a rest)
    (h' : Yields r b us) : a = b ∧ rest = us := by
  obtain ⟨hlt, rfl⟩ := h
  exact yields_some.mp h'

end Yields

namespace Expr
variable {ts us rest : List Lexeme} {e : Expr} {level : Nat}

theorem yields_take?_iff {α : Type} {kind : Lexeme → Option α} {a : α} :
    Yields (take? kind ts) a rest ↔ ∃ t, ts = t :: rest ∧ kind t = some a := by
  cases ts with
  | nil => simp [take?, yields_none]
  | cons t us =>
    rw [take?]
    cases hkind : kind t with
    | none => simp [yields_none, hkind]
    | some b =>
      rw [Option.map_some, yields_some]
      constructor
      · rintro ⟨rfl, rfl⟩
        exact ⟨t, rfl, hkind⟩
      · rintro ⟨t', hcons, ht'⟩
        obtain ⟨rfl, rfl⟩ := List.cons.inj hcons
        exact ⟨Option.some.inj (hkind.symm.trans ht'), rfl⟩

theorem yields_expect?_iff {s : Symbol} {span : Span} :
    Yields (expect? s ts) span rest ↔ ts = ⟨.symbol s, span⟩ :: rest := by
  rw [expect?, yields_take?_iff]
  constructor
  · rintro ⟨⟨node, other⟩, rfl, ht⟩
    obtain ⟨hnode, hspan⟩ := Option.ite_none_right_eq_some.mp ht
    obtain rfl := Option.some.inj hspan
    obtain rfl : node = .symbol s := hnode
    rfl
  · rintro rfl
    exact ⟨_, rfl, by simp⟩

theorem expect?_eq_none_iff {s : Symbol} : expect? s ts = none ↔ ∀ span us, ts ≠ ⟨.symbol s, span⟩ :: us := by
  constructor
  · intro h span us hts
    obtain ⟨hlt, heq⟩ := yields_expect?_iff.mpr hts
    rw [h] at heq
    exact absurd heq (by simp)
  · intro h
    cases hread : expect? s ts with
    | none => rfl
    | some front => exact absurd (yields_expect?_iff.mp ⟨front.lt, hread⟩) (h _ _)

theorem ofLexeme?_ne_some_of_symbol {s : Symbol} {span : Span} : ofLexeme? ⟨.symbol s, span⟩ ≠ some e := by
  simp [ofLexeme?]

/-! ## One step of each reader -/

theorem yields_parseAt_iff_of_lt (h : level < operandLevel) :
    Yields (parseAt level ts) e rest ↔ ∃ lhs us,
      Yields (parseAt (level + 1) ts) lhs us ∧ Yields (parseChain level lhs us) e rest := by
  rw [parseAt.eq_def, if_pos h, yields_bind]
  constructor
  · rintro ⟨lhs, us, hlt, hlhs, hmore⟩
    obtain ⟨whole, behind, hlt', hchain, hreturn⟩ := yields_bind.mp hmore
    obtain ⟨rfl, rfl⟩ := yields_some.mp hreturn
    exact ⟨lhs, us, ⟨hlt, hlhs⟩, hlt', hchain⟩
  · rintro ⟨lhs, us, ⟨hlt, hlhs⟩, hlt', hchain⟩
    exact ⟨lhs, us, hlt, hlhs, yields_bind.mpr ⟨e, rest, hlt', hchain, yields_some.mpr ⟨rfl, rfl⟩⟩⟩

theorem not_yields_parseAt_nil : ¬ Yields (parseAt operandLevel []) e rest := by
  rw [parseAt.eq_def, if_neg (by decide)]
  exact yields_none

theorem yields_parseAt_prefix_iff {op : UnaryOp} {mark : Span} :
    Yields (parseAt operandLevel (⟨op.token, mark⟩ :: us)) e rest ↔ ∃ operand,
      Yields (parseAt operandLevel us) operand rest ∧ e = .unary ⟨mark.start, operand.span.stop⟩
        op operand := by
  rw [parseAt.eq_def, if_neg (by decide)]
  simp only [op.unaryOp?_token]
  rw [yields_bind]
  constructor
  · rintro ⟨operand, behind, hlt, hoperand, hreturn⟩
    obtain ⟨rfl, rfl⟩ := yields_some.mp hreturn
    exact ⟨operand, ⟨hlt, hoperand⟩, rfl⟩
  · rintro ⟨operand, ⟨hlt, hoperand⟩, rfl⟩
    exact ⟨operand, rest, hlt, hoperand, yields_some.mpr ⟨rfl, rfl⟩⟩

theorem yields_parseAt_openParen_iff {opening : Span} :
    Yields (parseAt operandLevel (⟨.symbol .openParen, opening⟩ :: us)) e rest ↔ ∃ inner closing,
      Yields (parseAt 0 us) inner (⟨.symbol .closeParen, closing⟩ :: rest) ∧
        e = .group ⟨opening.start, closing.stop⟩ inner := by
  rw [parseAt.eq_def, if_neg (by decide)]
  simp only [Token.unaryOp?]
  rw [yields_bind]
  constructor
  · rintro ⟨inner, behind, hlt, hinner, hmore⟩
    obtain ⟨closing, behind', hlt', hclose, hreturn⟩ := yields_bind.mp hmore
    obtain ⟨rfl, rfl⟩ := yields_some.mp hreturn
    obtain rfl := yields_expect?_iff.mp ⟨hlt', hclose⟩
    exact ⟨inner, closing, ⟨hlt, hinner⟩, rfl⟩
  · rintro ⟨inner, closing, ⟨hlt, hinner⟩, rfl⟩
    obtain ⟨hlt', hclose⟩ := yields_expect?_iff.mpr (Eq.refl (⟨.symbol .closeParen, closing⟩ :: rest))
    exact ⟨inner, _, hlt, hinner, yields_bind.mpr ⟨closing, rest, hlt', hclose, yields_some.mpr ⟨rfl, rfl⟩⟩⟩

theorem yields_parseAt_openBrace_iff {opening : Span} :
    Yields (parseAt operandLevel (⟨.symbol .openBrace, opening⟩ :: us)) e rest ↔ ∃ fields closing,
      Yields (parseFields us) (fields, closing) rest ∧ e = .object ⟨opening.start, closing.stop⟩ fields := by
  rw [parseAt.eq_def, if_neg (by decide)]
  simp only [Token.unaryOp?]
  rw [yields_bind]
  constructor
  · rintro ⟨⟨fields, closing⟩, behind, hlt, hfields, hreturn⟩
    obtain ⟨rfl, rfl⟩ := yields_some.mp hreturn
    exact ⟨fields, closing, ⟨hlt, hfields⟩, rfl⟩
  · rintro ⟨fields, closing, ⟨hlt, hfields⟩, rfl⟩
    exact ⟨(fields, closing), rest, hlt, hfields, yields_some.mpr ⟨rfl, rfl⟩⟩

theorem yields_parseAt_openBracket_iff {opening : Span} :
    Yields (parseAt operandLevel (⟨.symbol .openBracket, opening⟩ :: us)) e rest ↔ ∃ items closing,
      Yields (parseItems us) (items, closing) rest ∧ e = .array ⟨opening.start, closing.stop⟩ items := by
  rw [parseAt.eq_def, if_neg (by decide)]
  simp only [Token.unaryOp?]
  rw [yields_bind]
  constructor
  · rintro ⟨⟨items, closing⟩, behind, hlt, hitems, hreturn⟩
    obtain ⟨rfl, rfl⟩ := yields_some.mp hreturn
    exact ⟨items, closing, ⟨hlt, hitems⟩, rfl⟩
  · rintro ⟨items, closing, ⟨hlt, hitems⟩, rfl⟩
    exact ⟨(items, closing), rest, hlt, hitems, yields_some.mpr ⟨rfl, rfl⟩⟩

/-- Does the token begin no operand of more than one token? -/
structure Single (t : Token) : Prop where
  not_unary : t.unaryOp? = none
  not_paren : t ≠ .symbol .openParen
  not_brace : t ≠ .symbol .openBrace
  not_bracket : t ≠ .symbol .openBracket

theorem yields_parseAt_single_iff {t : Lexeme} (h : Single t.node) :
    Yields (parseAt operandLevel (t :: us)) e rest ↔ ofLexeme? t = some e ∧ us = rest := by
  rw [parseAt.eq_def, if_neg (by decide)]
  simp only [h.not_unary]
  split
  · exact absurd ‹_› h.not_paren
  · exact absurd ‹_› h.not_brace
  · exact absurd ‹_› h.not_bracket
  · cases hread : ofLexeme? t with
    | none => simp [yields_none]
    | some e' => simp [yields_some]

theorem begin_cases (t : Lexeme) :
    (∃ op : UnaryOp, t = ⟨op.token, t.span⟩) ∨ t = ⟨.symbol .openParen, t.span⟩ ∨
      t = ⟨.symbol .openBrace, t.span⟩ ∨ t = ⟨.symbol .openBracket, t.span⟩ ∨ Single t.node := by
  obtain ⟨node, span⟩ := t
  by_cases hparen : node = .symbol .openParen
  · exact .inr (.inl (by rw [hparen]))
  by_cases hbrace : node = .symbol .openBrace
  · exact .inr (.inr (.inl (by rw [hbrace])))
  by_cases hbracket : node = .symbol .openBracket
  · exact .inr (.inr (.inr (.inl (by rw [hbracket]))))
  cases hop : node.unaryOp? with
  | some op => exact .inl ⟨op, by rw [Token.unaryOp?_eq_some_iff.mp hop]⟩
  | none => exact .inr (.inr (.inr (.inr ⟨hop, hparen, hbrace, hbracket⟩)))

theorem yields_parseChain_nil_iff {lhs : Expr} :
    Yields (parseChain level lhs []) e rest ↔ lhs = e ∧ [] = rest := by
  rw [parseChain.eq_def]
  exact yields_some

theorem yields_parseChain_stop_iff {lhs : Expr} {t : Lexeme} (h : t.node.operatorAt? level = none) :
    Yields (parseChain level lhs (t :: us)) e rest ↔ lhs = e ∧ t :: us = rest := by
  rw [parseChain.eq_def]
  simp only [h]
  exact yields_some

theorem yields_parseChain_operator_iff {lhs : Expr} {op : BinaryOp} {mark : Span} :
    Yields (parseChain op.level lhs (⟨op.token, mark⟩ :: us)) e rest ↔ ∃ rhs behind,
      Yields (parseAt (op.level + 1) us) rhs behind ∧
        Yields (parseChain op.level (.binary ⟨lhs.span.start, rhs.span.stop⟩ op lhs rhs) behind) e rest := by
  rw [parseChain.eq_def]
  simp only [Token.operatorAt?_eq_some_iff.mpr ⟨rfl, rfl⟩]
  rw [yields_bind]
  constructor
  · rintro ⟨rhs, behind, hlt, hrhs, hmore⟩
    obtain ⟨whole, behind', hlt', hchain, hreturn⟩ := yields_bind.mp hmore
    obtain ⟨rfl, rfl⟩ := yields_some.mp hreturn
    exact ⟨rhs, behind, ⟨hlt, hrhs⟩, hlt', hchain⟩
  · rintro ⟨rhs, behind, ⟨hlt, hrhs⟩, hlt', hchain⟩
    exact ⟨rhs, behind, hlt, hrhs, yields_bind.mpr ⟨e, rest, hlt', hchain, yields_some.mpr ⟨rfl, rfl⟩⟩⟩

theorem keyOfLexeme?_symbol {s : Symbol} {span : Span} : keyOfLexeme? ⟨.symbol s, span⟩ = none := rfl

/-- The fields of an object are closed at once, or there is a field and behind it the end or a comma. -/
theorem yields_parseFields_iff {fields : List (Name × Expr)} {closing : Span} :
    Yields (parseFields ts) (fields, closing) rest ↔
      (ts = ⟨.symbol .closeBrace, closing⟩ :: rest ∧ fields = []) ∨
      ∃ t key colon us value behind, ts = t :: ⟨.symbol .colon, colon⟩ :: us ∧ keyOfLexeme? t = some key ∧
        Yields (parseAt 0 us) value behind ∧
        ((behind = ⟨.symbol .closeBrace, closing⟩ :: rest ∧ fields = [(key, value)]) ∨
          ∃ comma behind' more, behind = ⟨.symbol .comma, comma⟩ :: behind' ∧
            Yields (parseFields behind') (more, closing) rest ∧ fields = (key, value) :: more) := by
  rw [parseFields.eq_def]
  split
  · next close behind hlt hopen =>
    obtain rfl := yields_expect?_iff.mp ⟨hlt, hopen⟩
    rw [yields_some]
    constructor
    · rintro ⟨hvalue, rfl⟩
      obtain ⟨rfl, rfl⟩ := Prod.mk.inj hvalue
      exact .inl ⟨rfl, rfl⟩
    · rintro (⟨hcons, rfl⟩ | ⟨t, key, _, _, _, _, hcons, hkey, -⟩)
      · obtain ⟨ht, rfl⟩ := List.cons.inj hcons
        exact ⟨by rw [(Located.mk.inj ht).2], rfl⟩
      · obtain ⟨rfl, -⟩ := List.cons.inj hcons
        exact absurd hkey (by simp [keyOfLexeme?_symbol])
  · next hopen =>
    have hnot : ∀ span us, ts ≠ ⟨.symbol .closeBrace, span⟩ :: us := expect?_eq_none_iff.mp hopen
    rw [yields_bind]
    constructor
    · rintro ⟨key, us, hkeyLt, htake, hmore⟩
      obtain ⟨colon, us', hcolonLt, hcolon, hmore⟩ := yields_bind.mp hmore
      obtain ⟨value, behind, hvalueLt, hvalue, hmore⟩ := yields_bind.mp hmore
      obtain ⟨t, rfl, hkey⟩ := yields_take?_iff.mp ⟨hkeyLt, htake⟩
      obtain rfl := yields_expect?_iff.mp ⟨hcolonLt, hcolon⟩
      refine .inr ⟨t, key, colon, us', value, behind, rfl, hkey, ⟨hvalueLt, hvalue⟩, ?_⟩
      dsimp only at hmore
      split at hmore
      · next close behind' hcloseLt hclose =>
        obtain rfl := yields_expect?_iff.mp ⟨hcloseLt, hclose⟩
        obtain ⟨hpair, rfl⟩ := yields_some.mp hmore
        obtain ⟨rfl, rfl⟩ := Prod.mk.inj hpair
        exact .inl ⟨rfl, rfl⟩
      · next hclose =>
        obtain ⟨comma, behind', hcommaLt, hcomma, hmore⟩ := yields_bind.mp hmore
        obtain ⟨⟨more, close⟩, behind'', hmoreLt, hfields, hreturn⟩ := yields_bind.mp hmore
        obtain rfl := yields_expect?_iff.mp ⟨hcommaLt, hcomma⟩
        obtain ⟨hpair, rfl⟩ := yields_some.mp hreturn
        obtain ⟨rfl, rfl⟩ := Prod.mk.inj hpair
        exact .inr ⟨comma, behind', more, rfl, ⟨hmoreLt, hfields⟩, rfl⟩
    · rintro (⟨rfl, -⟩ | ⟨t, key, colon, us, value, behind, rfl, hkey, ⟨hvalueLt, hvalue⟩, hend⟩)
      · exact absurd rfl (hnot _ _)
      obtain ⟨hkeyLt, htake⟩ := yields_take?_iff.mpr ⟨t, rfl, hkey⟩
      obtain ⟨hcolonLt, hcolon⟩ := yields_expect?_iff.mpr (Eq.refl (⟨.symbol .colon, colon⟩ :: us))
      refine ⟨key, _, hkeyLt, htake, yields_bind.mpr ⟨colon, us, hcolonLt, hcolon, ?_⟩⟩
      refine yields_bind.mpr ⟨value, behind, hvalueLt, hvalue, ?_⟩
      dsimp only
      obtain ⟨rfl, rfl⟩ | ⟨comma, behind', more, rfl, ⟨hmoreLt, hfields⟩, rfl⟩ := hend
      · obtain ⟨hcloseLt, hclose⟩ := yields_expect?_iff.mpr (Eq.refl (⟨.symbol .closeBrace, closing⟩ :: rest))
        simp only [hclose]
        exact yields_some.mpr ⟨rfl, rfl⟩
      · have hclose : expect? .closeBrace (⟨.symbol .comma, comma⟩ :: behind') = none :=
          expect?_eq_none_iff.mpr (by simp)
        obtain ⟨hcommaLt, hcomma⟩ := yields_expect?_iff.mpr (Eq.refl (⟨.symbol .comma, comma⟩ :: behind'))
        simp only [hclose]
        refine yields_bind.mpr ⟨comma, behind', hcommaLt, hcomma, ?_⟩
        exact yields_bind.mpr ⟨(more, closing), rest, hmoreLt, hfields, yields_some.mpr ⟨rfl, rfl⟩⟩

/-- No operand begins with a closing bracket. -/
theorem not_yields_parseAt_closeBracket {level : Nat} {us rest : List Lexeme} {e : Expr} {span : Span}
    (hlevel : level ≤ operandLevel) :
    ¬ Yields (parseAt level (⟨.symbol .closeBracket, span⟩ :: us)) e rest := by
  intro h
  obtain hlt | rfl := Nat.lt_or_eq_of_le hlevel
  · obtain ⟨lhs, behind, hlhs, -⟩ := (yields_parseAt_iff_of_lt hlt).mp h
    exact not_yields_parseAt_closeBracket (Nat.succ_le_of_lt hlt) hlhs
  · rw [yields_parseAt_single_iff ⟨rfl, by simp, by simp, by simp⟩] at h
    exact ofLexeme?_ne_some_of_symbol h.1
termination_by operandLevel - level

theorem yields_parseItems_iff {items : List Expr} {closing : Span} :
    Yields (parseItems ts) (items, closing) rest ↔
      (ts = ⟨.symbol .closeBracket, closing⟩ :: rest ∧ items = []) ∨
      ∃ item behind, Yields (parseAt 0 ts) item behind ∧
        ((behind = ⟨.symbol .closeBracket, closing⟩ :: rest ∧ items = [item]) ∨
          ∃ comma behind' more, behind = ⟨.symbol .comma, comma⟩ :: behind' ∧
            Yields (parseItems behind') (more, closing) rest ∧ items = item :: more) := by
  rw [parseItems.eq_def]
  split
  · next close behind hlt hopen =>
    obtain rfl := yields_expect?_iff.mp ⟨hlt, hopen⟩
    rw [yields_some]
    constructor
    · rintro ⟨hvalue, rfl⟩
      obtain ⟨rfl, rfl⟩ := Prod.mk.inj hvalue
      exact .inl ⟨rfl, rfl⟩
    · rintro (⟨hcons, rfl⟩ | ⟨item, _, hitem, -⟩)
      · obtain ⟨ht, rfl⟩ := List.cons.inj hcons
        exact ⟨by rw [(Located.mk.inj ht).2], rfl⟩
      · exact absurd hitem (not_yields_parseAt_closeBracket (Nat.zero_le _))
  · next hopen =>
    have hnot : ∀ span us, ts ≠ ⟨.symbol .closeBracket, span⟩ :: us := expect?_eq_none_iff.mp hopen
    rw [yields_bind]
    constructor
    · rintro ⟨item, behind, hitemLt, hitem, hmore⟩
      refine .inr ⟨item, behind, ⟨hitemLt, hitem⟩, ?_⟩
      dsimp only at hmore
      split at hmore
      · next close behind' hcloseLt hclose =>
        obtain rfl := yields_expect?_iff.mp ⟨hcloseLt, hclose⟩
        obtain ⟨hpair, rfl⟩ := yields_some.mp hmore
        obtain ⟨rfl, rfl⟩ := Prod.mk.inj hpair
        exact .inl ⟨rfl, rfl⟩
      · next hclose =>
        obtain ⟨comma, behind', hcommaLt, hcomma, hmore⟩ := yields_bind.mp hmore
        obtain ⟨⟨more, close⟩, behind'', hmoreLt, hitems, hreturn⟩ := yields_bind.mp hmore
        obtain rfl := yields_expect?_iff.mp ⟨hcommaLt, hcomma⟩
        obtain ⟨hpair, rfl⟩ := yields_some.mp hreturn
        obtain ⟨rfl, rfl⟩ := Prod.mk.inj hpair
        exact .inr ⟨comma, behind', more, rfl, ⟨hmoreLt, hitems⟩, rfl⟩
    · rintro (⟨rfl, -⟩ | ⟨item, behind, ⟨hitemLt, hitem⟩, hend⟩)
      · exact absurd rfl (hnot _ _)
      refine ⟨item, behind, hitemLt, hitem, ?_⟩
      dsimp only
      obtain ⟨rfl, rfl⟩ | ⟨comma, behind', more, rfl, ⟨hmoreLt, hitems⟩, rfl⟩ := hend
      · obtain ⟨hcloseLt, hclose⟩ := yields_expect?_iff.mpr (Eq.refl (⟨.symbol .closeBracket, closing⟩ :: rest))
        simp only [hclose]
        exact yields_some.mpr ⟨rfl, rfl⟩
      · have hclose : expect? .closeBracket (⟨.symbol .comma, comma⟩ :: behind') = none :=
          expect?_eq_none_iff.mpr (by simp)
        obtain ⟨hcommaLt, hcomma⟩ := yields_expect?_iff.mpr (Eq.refl (⟨.symbol .comma, comma⟩ :: behind'))
        simp only [hclose]
        refine yields_bind.mpr ⟨comma, behind', hcommaLt, hcomma, ?_⟩
        exact yields_bind.mpr ⟨(more, closing), rest, hmoreLt, hitems, yields_some.mpr ⟨rfl, rfl⟩⟩

end Expr

end BranchingStory
