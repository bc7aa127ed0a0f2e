import BranchingStory.Proofs.Expr.Reading

/-! # Readers and phrases

What a reader takes from the front of some tokens is a phrase of the level that was asked for, and
every phrase of a level is taken as a whole where no operator follows that would go on with it. A
phrase is known by its tree and its tokens. -/

namespace BranchingStory.Expr
set_option autoImplicit false

/-! ## Spans -/

theorem spanOf_cons (t : Lexeme) {ts : List Lexeme} (h : ts ≠ []) :
    spanOf (t :: ts) = ⟨t.span.start, (spanOf ts).stop⟩ := by
  simp [spanOf, List.getLast?_cons, List.getLast?_eq_some_getLast h]

theorem spanOf_append {ts us : List Lexeme} (h : ts ≠ []) (h' : us ≠ []) :
    spanOf (ts ++ us) = ⟨(spanOf ts).start, (spanOf us).stop⟩ := by
  obtain ⟨t, ts, rfl⟩ := List.exists_cons_of_ne_nil h
  rw [spanOf, List.getLast?_append, List.getLast?_eq_some_getLast h']
  simp [spanOf, List.getLast?_eq_some_getLast h']

theorem Phrase.tokens_ne_nil (p : Phrase) : p.tokens ≠ [] := by
  cases p <;> simp [Phrase.tokens]

theorem Phrase.span_expr (p : Phrase) : p.expr.span = spanOf p.tokens := by
  cases p <;> rfl

/-- The closing bracket that ends the fields. -/
def Fields.closing : Fields → Span
  | .close closing => closing
  | .last _ _ _ _ closing => closing
  | .more _ _ _ _ _ rest => rest.closing

def Items.closing : Items → Span
  | .close closing => closing
  | .last _ closing => closing
  | .more _ _ rest => rest.closing

theorem Fields.tokens_ne_nil (f : Fields) : f.tokens ≠ [] := by
  cases f <;> simp [Fields.tokens]

theorem Items.tokens_ne_nil (f : Items) : f.tokens ≠ [] := by
  cases f <;> simp [Items.tokens]

theorem Fields.stop_spanOf_tokens : ∀ f : Fields, (spanOf f.tokens).stop = f.closing.stop
  | .close _ => rfl
  | .last _ _ _ value closing => by
    rw [Fields.tokens, spanOf_cons _ (by simp), spanOf_cons _ (by simp),
      spanOf_append value.tokens_ne_nil (by simp)]
    rfl
  | .more _ _ _ value comma rest => by
    rw [Fields.tokens, spanOf_cons _ (by simp), spanOf_cons _ (by simp),
      spanOf_append value.tokens_ne_nil (by simp), spanOf_cons _ rest.tokens_ne_nil]
    exact rest.stop_spanOf_tokens

theorem Items.stop_spanOf_tokens : ∀ f : Items, (spanOf f.tokens).stop = f.closing.stop
  | .close _ => rfl
  | .last item closing => by
    rw [Items.tokens, spanOf_append item.tokens_ne_nil (by simp)]
    rfl
  | .more item comma rest => by
    rw [Items.tokens, spanOf_append item.tokens_ne_nil (by simp), spanOf_cons _ rest.tokens_ne_nil]
    exact rest.stop_spanOf_tokens

/-- Is the expression the tree of some of the tokens, with the span of just these? -/
def OfTokens (ts : List Lexeme) (e : Expr) : Prop :=
  ∃ q : Phrase, q.expr = e ∧ q.tokens <:+: ts ∧ e.span = spanOf q.tokens

theorem OfTokens.mono {ts us : List Lexeme} {e : Expr} (h : OfTokens ts e) (hts : ts <:+: us) :
    OfTokens us e := by
  obtain ⟨q, he, htokens, hspan⟩ := h
  exact ⟨q, he, htokens.trans hts, hspan⟩

theorem Phrase.ofTokens (p : Phrase) : OfTokens p.tokens p.expr := ⟨p, rfl, List.infix_rfl, p.span_expr⟩

mutual

theorem Phrase.ofTokens_of_mem_subtrees : ∀ {p : Phrase} {e : Expr}, e ∈ p.expr.subtrees → OfTokens p.tokens e
  | .string span text, e, h => by
    obtain rfl := List.mem_singleton.mp h
    exact (Phrase.string span text).ofTokens
  | .number span value spelling, e, h => by
    obtain rfl := List.mem_singleton.mp h
    exact (Phrase.number span value spelling).ofTokens
  | .boolean span value, e, h => by
    obtain rfl := List.mem_singleton.mp h
    exact (Phrase.boolean span value).ofTokens
  | .identifier span name, e, h => by
    obtain rfl := List.mem_singleton.mp h
    exact (Phrase.identifier span name).ofTokens
  | .unary op mark operand, e, h => by
    obtain rfl | hoperand := List.mem_cons.mp h
    · exact (Phrase.unary op mark operand).ofTokens
    · exact (Phrase.ofTokens_of_mem_subtrees hoperand).mono (List.infix_cons List.infix_rfl)
  | .binary lhs op mark rhs, e, h => by
    obtain rfl | hparts := List.mem_cons.mp h
    · exact (Phrase.binary lhs op mark rhs).ofTokens
    obtain hlhs | hrhs := List.mem_append.mp hparts
    · exact (Phrase.ofTokens_of_mem_subtrees hlhs).mono (List.infix_append_left ..)
    · exact (Phrase.ofTokens_of_mem_subtrees hrhs).mono
        ⟨lhs.tokens ++ [⟨op.token, mark⟩], [], by simp [Phrase.tokens]⟩
  | .group opening inner closing, e, h => by
    obtain rfl | hinner := List.mem_cons.mp h
    · exact (Phrase.group opening inner closing).ofTokens
    · exact (Phrase.ofTokens_of_mem_subtrees hinner).mono
        ⟨[⟨.symbol .openParen, opening⟩], [⟨.symbol .closeParen, closing⟩], by simp [Phrase.tokens]⟩
  | .object opening fields, e, h => by
    obtain rfl | hfields := List.mem_cons.mp h
    · exact (Phrase.object opening fields).ofTokens
    · exact (Fields.ofTokens_of_mem_subtrees hfields).mono (List.infix_cons List.infix_rfl)
  | .array opening items, e, h => by
    obtain rfl | hitems := List.mem_cons.mp h
    · exact (Phrase.array opening items).ofTokens
    · exact (Items.ofTokens_of_mem_subtrees hitems).mono (List.infix_cons List.infix_rfl)

theorem Fields.ofTokens_of_mem_subtrees : ∀ {f : Fields} {e : Expr}, e ∈ subtreesOfFields f.entries →
    OfTokens f.tokens e
  | .close closing, e, h => absurd h (List.not_mem_nil)
  | .last quoted key colon value closing, e, h => by
    obtain hvalue | hnone := List.mem_append.mp h
    · exact (Phrase.ofTokens_of_mem_subtrees hvalue).mono
        ⟨[⟨keyToken quoted key, key.span⟩, ⟨.symbol .colon, colon⟩], [⟨.symbol .closeBrace, closing⟩], by
          simp [Fields.tokens]⟩
    · exact absurd hnone List.not_mem_nil
  | .more quoted key colon value comma rest, e, h => by
    obtain hvalue | hrest := List.mem_append.mp h
    · exact (Phrase.ofTokens_of_mem_subtrees hvalue).mono
        ⟨[⟨keyToken quoted key, key.span⟩, ⟨.symbol .colon, colon⟩], ⟨.symbol .comma, comma⟩ :: rest.tokens, by
          simp [Fields.tokens]⟩
    · exact (Fields.ofTokens_of_mem_subtrees hrest).mono
        ⟨⟨keyToken quoted key, key.span⟩ :: ⟨.symbol .colon, colon⟩ ::
          (value.tokens ++ [⟨.symbol .comma, comma⟩]), [],
          by simp [Fields.tokens]⟩

theorem Items.ofTokens_of_mem_subtrees : ∀ {f : Items} {e : Expr}, e ∈ subtreesOfItems f.exprs →
    OfTokens f.tokens e
  | .close closing, e, h => absurd h (List.not_mem_nil)
  | .last item closing, e, h => by
    obtain hitem | hnone := List.mem_append.mp h
    · exact (Phrase.ofTokens_of_mem_subtrees hitem).mono (List.infix_append_left ..)
    · exact absurd hnone List.not_mem_nil
  | .more item comma rest, e, h => by
    obtain hitem | hrest := List.mem_append.mp h
    · exact (Phrase.ofTokens_of_mem_subtrees hitem).mono (List.infix_append_left ..)
    · exact (Items.ofTokens_of_mem_subtrees hrest).mono ⟨item.tokens ++ [⟨.symbol .comma, comma⟩], [], by
        simp [Items.tokens]⟩

end

/-! ## What is read is a phrase -/

theorem Phrase.Fits.mono {p : Phrase} {level tighter : Nat} (h : p.Fits tighter) (hle : level ≤ tighter) :
    p.Fits level := by
  cases p with
  | binary lhs op mark rhs => exact ⟨Nat.le_trans hle h.1, h.2⟩
  | _ => exact h

theorem ofLexeme?_phrase {t : Lexeme} {e : Expr} (h : ofLexeme? t = some e) :
    ∃ p : Phrase, (∀ level, p.Fits level) ∧ p.tokens = [t] ∧ p.expr = e := by
  obtain ⟨node, span⟩ := t
  cases node with
  | string text =>
    exact ⟨.string span text, fun _ => trivial, rfl, Option.some.inj h⟩
  | number value spelling =>
    exact ⟨.number span value spelling, fun _ => trivial, rfl, Option.some.inj h⟩
  | word name =>
    dsimp only [ofLexeme?] at h
    split at h
    · next htrue => exact ⟨.boolean span true, fun _ => trivial, by rw [htrue]; rfl, Option.some.inj h⟩
    split at h
    · next hfalse => exact ⟨.boolean span false, fun _ => trivial, by rw [hfalse]; rfl, Option.some.inj h⟩
    split at h
    · exact absurd h (by simp)
    · next hreserved => exact ⟨.identifier span name, fun _ => hreserved, rfl, Option.some.inj h⟩
  | _ => exact absurd h (by simp [ofLexeme?])

theorem keyOfLexeme?_eq_some_iff {t : Lexeme} {key : Name} :
    keyOfLexeme? t = some key ↔ ∃ quoted, t = ⟨keyToken quoted key, key.span⟩ ∧
      (quoted = false → key.node ∉ Token.reservedWords) := by
  constructor
  · intro h
    obtain ⟨node, span⟩ := t
    cases node with
    | string text =>
      obtain rfl := Option.some.inj h
      exact ⟨true, rfl, by simp⟩
    | word name =>
      dsimp only [keyOfLexeme?] at h
      split at h
      · exact absurd h (by simp)
      · next hreserved =>
        obtain rfl := Option.some.inj h
        exact ⟨false, rfl, fun _ => hreserved⟩
    | _ => exact absurd h (by simp [keyOfLexeme?])
  · rintro ⟨quoted, rfl, hreserved⟩
    cases quoted with
    | true => rfl
    | false => exact if_neg (hreserved rfl)

mutual

theorem exists_phrase_of_parseAt {level : Nat} (hlevel : level ≤ operandLevel) {ts rest : List Lexeme}
    {e : Expr} (h : Yields (parseAt level ts) e rest) :
    ∃ p : Phrase, p.Fits level ∧ p.tokens ++ rest = ts ∧ p.expr = e := by
  obtain hlt | rfl := Nat.lt_or_eq_of_le hlevel
  · obtain ⟨lhs, us, hlhs, hchain⟩ := (yields_parseAt_iff_of_lt hlt).mp h
    have hfewer := hlhs.length_lt
    obtain ⟨p, hp, rfl, rfl⟩ := exists_phrase_of_parseAt (Nat.succ_le_of_lt hlt) hlhs
    exact exists_phrase_of_parseChain hlt (hp.mono (Nat.le_succ level)) hchain
  cases ts with
  | nil => exact absurd h not_yields_parseAt_nil
  | cons t us =>
  obtain ⟨op, ht⟩ | ht | ht | ht | hsingle := begin_cases t
  · rw [ht] at h
    obtain ⟨operand, hoperand, rfl⟩ := yields_parseAt_prefix_iff.mp h
    obtain ⟨p, hp, rfl, rfl⟩ := exists_phrase_of_parseAt (Nat.le_refl _) hoperand
    refine ⟨.unary op t.span p, hp, by rw [ht]; rfl, ?_⟩
    rw [Phrase.expr, Phrase.tokens, spanOf_cons _ p.tokens_ne_nil, p.span_expr]
  · rw [ht] at h
    obtain ⟨inner, closing, hinner, rfl⟩ := yields_parseAt_openParen_iff.mp h
    obtain ⟨p, hp, rfl, rfl⟩ := exists_phrase_of_parseAt (Nat.zero_le _) hinner
    refine ⟨.group t.span p closing, hp, by rw [ht]; simp [Phrase.tokens], ?_⟩
    rw [Phrase.expr, Phrase.tokens, spanOf_cons _ (by simp), spanOf_append p.tokens_ne_nil (by simp)]
    rfl
  · rw [ht] at h
    obtain ⟨fields, closing, hfields, rfl⟩ := yields_parseAt_openBrace_iff.mp h
    obtain ⟨f, hf, rfl, rfl, rfl⟩ := exists_fields_of_parseFields hfields
    refine ⟨.object t.span f, hf, by rw [ht]; rfl, ?_⟩
    rw [Phrase.expr, Phrase.tokens, spanOf_cons _ f.tokens_ne_nil, f.stop_spanOf_tokens]
  · rw [ht] at h
    obtain ⟨items, closing, hitems, rfl⟩ := yields_parseAt_openBracket_iff.mp h
    obtain ⟨f, hf, rfl, rfl, rfl⟩ := exists_items_of_parseItems hitems
    refine ⟨.array t.span f, hf, by rw [ht]; rfl, ?_⟩
    rw [Phrase.expr, Phrase.tokens, spanOf_cons _ f.tokens_ne_nil, f.stop_spanOf_tokens]
  · obtain ⟨hread, rfl⟩ := (yields_parseAt_single_iff hsingle).mp h
    obtain ⟨p, hp, htokens, rfl⟩ := ofLexeme?_phrase hread
    exact ⟨p, hp _, by rw [htokens]; rfl, rfl⟩
termination_by 8 * ts.length + (operandLevel - level)
decreasing_by all_goals (subst_vars; simp only [List.length_cons, operandLevel] at *; omega)

/-- What stands left of a chain grows by one operator at a time and stays on the level of the chain. -/
theorem exists_phrase_of_parseChain {level : Nat} (hlevel : level < operandLevel) {lhs : Phrase}
    (hlhs : lhs.Fits level) {ts rest : List Lexeme} {e : Expr}
    (h : Yields (parseChain level lhs.expr ts) e rest) :
    ∃ p : Phrase, p.Fits level ∧ p.tokens ++ rest = lhs.tokens ++ ts ∧ p.expr = e := by
  cases ts with
  | nil =>
    obtain ⟨rfl, rfl⟩ := yields_parseChain_nil_iff.mp h
    exact ⟨lhs, hlhs, rfl, rfl⟩
  | cons t us =>
    cases hop : t.node.operatorAt? level with
    | none =>
      obtain ⟨rfl, rfl⟩ := (yields_parseChain_stop_iff hop).mp h
      exact ⟨lhs, hlhs, rfl, rfl⟩
    | some op =>
      obtain ⟨node, mark⟩ := t
      obtain ⟨rfl, rfl⟩ := Token.operatorAt?_eq_some_iff.mp hop
      obtain ⟨rhs, behind, hrhs, hchain⟩ := yields_parseChain_operator_iff.mp h
      have hfewer := hrhs.length_lt
      obtain ⟨q, hq, rfl, rfl⟩ := exists_phrase_of_parseAt (Nat.succ_le_of_lt hlevel) hrhs
      have hwhole : (Phrase.binary lhs op mark q).expr =
          .binary ⟨lhs.expr.span.start, q.expr.span.stop⟩ op lhs.expr q.expr := by
        rw [Phrase.expr, Phrase.tokens, spanOf_append lhs.tokens_ne_nil (by simp),
          spanOf_cons _ q.tokens_ne_nil, lhs.span_expr, q.span_expr]
      have hbinary : (Phrase.binary lhs op mark q).Fits op.level := ⟨Nat.le_refl _, hlhs, hq⟩
      rw [← hwhole] at hchain
      obtain ⟨p, hp, htokens, rfl⟩ := exists_phrase_of_parseChain hlevel hbinary hchain
      exact ⟨p, hp, by rw [htokens]; simp [Phrase.tokens], rfl⟩
termination_by 8 * ts.length
decreasing_by all_goals (subst_vars; simp only [List.length_cons, operandLevel] at *; omega)

theorem exists_fields_of_parseFields {ts rest : List Lexeme} {fields : List (Name × Expr)} {closing : Span}
    (h : Yields (parseFields ts) (fields, closing) rest) :
    ∃ f : Fields, f.Fit ∧ f.tokens ++ rest = ts ∧ f.entries = fields ∧ f.closing = closing := by
  obtain ⟨rfl, rfl⟩ | ⟨t, key, colon, us, value, behind, rfl, hkey, hvalue, hend⟩ := yields_parseFields_iff.mp h
  · exact ⟨.close closing, trivial, rfl, rfl, rfl⟩
  obtain ⟨quoted, rfl, hreserved⟩ := keyOfLexeme?_eq_some_iff.mp hkey
  have hfewer := hvalue.length_lt
  obtain ⟨p, hp, rfl, rfl⟩ := exists_phrase_of_parseAt (Nat.zero_le _) hvalue
  obtain ⟨rfl, rfl⟩ | ⟨comma, behind', more, rfl, hmore, rfl⟩ := hend
  · exact ⟨.last quoted key colon p closing, ⟨hreserved, hp⟩, by simp [Fields.tokens], rfl, rfl⟩
  · obtain ⟨f, hf, rfl, rfl, rfl⟩ := exists_fields_of_parseFields hmore
    exact ⟨.more quoted key colon p comma f, ⟨hreserved, hp, hf⟩, by simp [Fields.tokens], rfl, rfl⟩
termination_by 8 * ts.length + 7
decreasing_by all_goals (subst_vars; simp only [List.length_cons, operandLevel] at *; omega)

theorem exists_items_of_parseItems {ts rest : List Lexeme} {items : List Expr} {closing : Span}
    (h : Yields (parseItems ts) (items, closing) rest) :
    ∃ f : Items, f.Fit ∧ f.tokens ++ rest = ts ∧ f.exprs = items ∧ f.closing = closing := by
  obtain ⟨rfl, rfl⟩ | ⟨item, behind, hitem, hend⟩ := yields_parseItems_iff.mp h
  · exact ⟨.close closing, trivial, rfl, rfl, rfl⟩
  have hfewer := hitem.length_lt
  obtain ⟨p, hp, rfl, rfl⟩ := exists_phrase_of_parseAt (Nat.zero_le _) hitem
  obtain ⟨rfl, rfl⟩ | ⟨comma, behind', more, rfl, hmore, rfl⟩ := hend
  · exact ⟨.last p closing, hp, by simp [Items.tokens], rfl, rfl⟩
  · obtain ⟨f, hf, rfl, rfl, rfl⟩ := exists_items_of_parseItems hmore
    exact ⟨.more p comma f, ⟨hp, hf⟩, by simp [Items.tokens], rfl, rfl⟩
termination_by 8 * ts.length + 7
decreasing_by all_goals (subst_vars; simp only [List.length_cons, operandLevel] at *; omega)

end

/-! ## Every phrase is read -/

/-- Does no operator of the level or of a tighter one stand in front? -/
def Stops (level : Nat) (ts : List Lexeme) : Prop :=
  ∀ t ∈ ts.head?, ∀ op : BinaryOp, t.node = op.token → op.level < level

theorem Stops.mono {level looser : Nat} {ts : List Lexeme} (h : Stops looser ts) (hle : looser ≤ level) :
    Stops level ts :=
  fun t ht op hop => Nat.lt_of_lt_of_le (h t ht op hop) hle

theorem stops_nil (level : Nat) : Stops level [] := by
  simp [Stops]

theorem stops_operator {op : BinaryOp} {mark : Span} {ts : List Lexeme} :
    Stops (op.level + 1) (⟨op.token, mark⟩ :: ts) := by
  intro t ht other hother
  obtain rfl : _ = t := Option.some.inj ht
  rw [BinaryOp.token_injective hother]
  exact Nat.lt_succ_self _

theorem stops_symbol {level : Nat} {s : Symbol} (span : Span) (ts : List Lexeme)
    (h : Token.binaryOp? (.symbol s) = none) : Stops level (⟨.symbol s, span⟩ :: ts) := by
  intro t ht op hop
  obtain rfl : _ = t := Option.some.inj ht
  obtain hop : Token.symbol s = op.token := hop
  rw [hop, op.binaryOp?_token] at h
  exact absurd h (by simp)

theorem Stops.yields_parseChain {level looser : Nat} {e : Expr} {rest : List Lexeme} (h : Stops looser rest)
    (hle : looser ≤ level) : Yields (parseChain level e rest) e rest := by
  cases rest with
  | nil => exact yields_parseChain_nil_iff.mpr ⟨rfl, rfl⟩
  | cons t us =>
    have hop : t.node.operatorAt? level = none := by
      cases hop : t.node.operatorAt? level with
      | none => rfl
      | some op =>
        obtain ⟨htoken, rfl⟩ := Token.operatorAt?_eq_some_iff.mp hop
        exact absurd hle (Nat.not_le.mpr (h t rfl op htoken))
    exact (yields_parseChain_stop_iff hop).mpr ⟨rfl, rfl⟩

/-- What is read on a tight level is read on a looser one, where no operator in between follows. -/
theorem yields_parseAt_of_tighter {level tighter : Nat} {ts rest : List Lexeme} {e : Expr}
    (h : Yields (parseAt tighter ts) e rest) (hle : level ≤ tighter) (htighter : tighter ≤ operandLevel)
    (hstop : Stops level rest) : Yields (parseAt level ts) e rest := by
  obtain hlt | rfl := Nat.lt_or_eq_of_le hle
  · have hread := yields_parseAt_of_tighter h hlt htighter (hstop.mono (Nat.le_succ level))
    exact (yields_parseAt_iff_of_lt (Nat.lt_of_lt_of_le hlt htighter)).mpr
      ⟨e, rest, hread, hstop.yields_parseChain (Nat.le_refl level)⟩
  · exact h
termination_by tighter - level

/-- Are the tokens of the phrase read as the phrase, where an operand is asked for, and where more
operators of a level may follow it? -/
structure Phrase.Read (p : Phrase) : Prop where
  operand : p.Fits operandLevel → ∀ rest, Yields (parseAt operandLevel (p.tokens ++ rest)) p.expr rest
  chain : ∀ level < operandLevel, p.Fits level → ∀ rest, Stops (level + 1) rest → ∀ whole behind,
    Yields (parseChain level p.expr rest) whole behind → Yields (parseAt level (p.tokens ++ rest)) whole behind

theorem Phrase.Read.at {p : Phrase} (h : p.Read) {level : Nat} (hlevel : level ≤ operandLevel)
    (hp : p.Fits level) {rest : List Lexeme} (hstop : Stops level rest) :
    Yields (parseAt level (p.tokens ++ rest)) p.expr rest := by
  obtain hlt | rfl := Nat.lt_or_eq_of_le hlevel
  · exact h.chain level hlt hp rest (hstop.mono (Nat.le_succ level)) _ _
      (hstop.yields_parseChain (Nat.le_refl level))
  · exact h.operand hp rest

theorem Phrase.read_of_operand {p : Phrase} (hfits : ∀ level, p.Fits level → p.Fits operandLevel)
    (h : p.Fits operandLevel → ∀ rest, Yields (parseAt operandLevel (p.tokens ++ rest)) p.expr rest) :
    p.Read where
  operand := h
  chain level hlevel hp rest hstop whole behind hchain := by
    have hread := yields_parseAt_of_tighter (h (hfits level hp) rest) (Nat.succ_le_of_lt hlevel)
      (Nat.le_refl _) hstop
    exact (yields_parseAt_iff_of_lt hlevel).mpr ⟨p.expr, rest, hread, hchain⟩

theorem Phrase.read_of_single {p : Phrase} {t : Lexeme} (hfits : ∀ level, p.Fits level → p.Fits operandLevel)
    (htokens : p.tokens = [t]) (hsingle : Single t.node)
    (hread : p.Fits operandLevel → ofLexeme? t = some p.expr) :
    p.Read := by
  refine read_of_operand hfits fun hp rest => ?_
  rw [htokens, List.singleton_append]
  exact (yields_parseAt_single_iff hsingle).mpr ⟨hread hp, rfl⟩

theorem single_string (text : String) : Single (.string text) := ⟨rfl, by simp, by simp, by simp⟩

theorem single_number (value : Binary64) (spelling : String) : Single (.number value spelling) :=
  ⟨rfl, by simp, by simp, by simp⟩

theorem single_word {name : String} (h : name ≠ "not") : Single (.word name) where
  not_unary := by
    simp only [Token.unaryOp?]
    split
    · next heq => exact absurd (Token.word.inj heq) h
    all_goals simp_all
  not_paren := by simp
  not_brace := by simp
  not_bracket := by simp

mutual

theorem Phrase.read : ∀ p : Phrase, p.Read
  | .string span text => Phrase.read_of_single (fun _ => id) rfl (single_string text) fun _ => rfl
  | .number span value spelling =>
    Phrase.read_of_single (fun _ => id) rfl (single_number value spelling) fun _ => rfl
  | .boolean span value =>
    Phrase.read_of_single (fun _ => id) rfl (single_word (by cases value <;> decide))
      fun _ => by cases value <;> rfl
  | .identifier span name =>
    Phrase.read_of_operand (fun _ => id) fun hp rest => by
      have hne : ∀ reserved ∈ Token.reservedWords, name ≠ reserved := fun _ hmem heq => hp (heq ▸ hmem)
      have hsingle : Single (.word name) := single_word (hne "not" (by decide))
      refine (yields_parseAt_single_iff (t := ⟨.word name, span⟩) hsingle).mpr ⟨?_, rfl⟩
      simp [ofLexeme?, hne "true" (by decide), hne "false" (by decide), show name ∉ Token.reservedWords from hp,
        Phrase.expr]
  | .unary op mark operand =>
    Phrase.read_of_operand (fun _ => id) fun hp rest =>
      yields_parseAt_prefix_iff.mpr ⟨operand.expr, operand.read.operand hp rest, by
        rw [Phrase.expr, Phrase.tokens, spanOf_cons _ operand.tokens_ne_nil, operand.span_expr]⟩
  | .group opening inner closing =>
    Phrase.read_of_operand (fun _ => id) fun hp rest => by
      rw [Phrase.tokens, List.cons_append, List.append_assoc, List.singleton_append]
      refine yields_parseAt_openParen_iff.mpr ⟨inner.expr, closing, ?_, ?_⟩
      · exact inner.read.at (Nat.zero_le _) hp (stops_symbol closing rest rfl)
      · rw [Phrase.expr, Phrase.tokens, spanOf_cons _ (by simp), spanOf_append inner.tokens_ne_nil (by simp)]
        rfl
  | .object opening fields =>
    Phrase.read_of_operand (fun _ => id) fun hp rest =>
      yields_parseAt_openBrace_iff.mpr ⟨fields.entries, fields.closing, fields.read hp rest, by
        rw [Phrase.expr, Phrase.tokens, spanOf_cons _ fields.tokens_ne_nil, fields.stop_spanOf_tokens]⟩
  | .array opening items =>
    Phrase.read_of_operand (fun _ => id) fun hp rest =>
      yields_parseAt_openBracket_iff.mpr ⟨items.exprs, items.closing, items.read hp rest, by
        rw [Phrase.expr, Phrase.tokens, spanOf_cons _ items.tokens_ne_nil, items.stop_spanOf_tokens]⟩
  | .binary lhs op mark rhs => by
    -- The left operand is followed by the operator, so it is the start of a chain; the right one is whole.
    have hchain : (Phrase.binary lhs op mark rhs).Fits op.level → ∀ rest, Stops (op.level + 1) rest →
        ∀ whole behind, Yields (parseChain op.level (Phrase.binary lhs op mark rhs).expr rest) whole behind →
          Yields (parseAt op.level ((Phrase.binary lhs op mark rhs).tokens ++ rest)) whole behind := by
      rintro ⟨-, hlhs, hrhs⟩ rest hstop whole behind hmore
      rw [Phrase.tokens, List.append_assoc, List.cons_append]
      refine lhs.read.chain op.level op.level_lt hlhs _ stops_operator _ _ ?_
      refine yields_parseChain_operator_iff.mpr ⟨rhs.expr, rest, ?_, ?_⟩
      · exact rhs.read.at (Nat.succ_le_of_lt op.level_lt) hrhs hstop
      · rwa [Phrase.expr, Phrase.tokens, spanOf_append lhs.tokens_ne_nil (by simp),
          spanOf_cons _ rhs.tokens_ne_nil, ← lhs.span_expr, ← rhs.span_expr] at hmore
    refine ⟨fun hp => absurd hp.1 (Nat.not_le.mpr op.level_lt),
      fun level hlevel hp rest hstop whole behind hmore => ?_⟩
    obtain hlt | rfl := Nat.lt_or_eq_of_le hp.1
    · have hread := hchain ⟨Nat.le_refl _, hp.2⟩ rest (hstop.mono (Nat.succ_le_succ hp.1)) _ _
        (hstop.yields_parseChain hlt)
      exact (yields_parseAt_iff_of_lt hlevel).mpr ⟨_, rest,
        yields_parseAt_of_tighter hread hlt (Nat.le_of_lt op.level_lt) hstop, hmore⟩
    · exact hchain hp rest hstop whole behind hmore

theorem Fields.read : ∀ f : Fields, f.Fit → ∀ rest,
    Yields (parseFields (f.tokens ++ rest)) (f.entries, f.closing) rest
  | .close closing, _, rest => yields_parseFields_iff.mpr (.inl ⟨rfl, rfl⟩)
  | .last quoted key colon value closing, hf, rest => by
    have hstop : Stops 0 (⟨.symbol .closeBrace, closing⟩ :: rest) := stops_symbol closing rest rfl
    have hvalue := value.read.at (Nat.zero_le _) hf.2 hstop
    refine yields_parseFields_iff.mpr (.inr ⟨_, key, colon, _, value.expr, _, ?_,
      keyOfLexeme?_eq_some_iff.mpr ⟨quoted, rfl, hf.1⟩, hvalue, .inl ⟨rfl, rfl⟩⟩)
    simp [Fields.tokens]
  | .more quoted key colon value comma more, hf, rest => by
    have hstop : Stops 0 (⟨.symbol .comma, comma⟩ :: (more.tokens ++ rest)) := stops_symbol comma _ rfl
    have hvalue := value.read.at (Nat.zero_le _) hf.2.1 hstop
    refine yields_parseFields_iff.mpr (.inr ⟨_, key, colon, _, value.expr, _, ?_,
      keyOfLexeme?_eq_some_iff.mpr ⟨quoted, rfl, hf.1⟩, hvalue,
      .inr ⟨comma, _, more.entries, rfl, more.read hf.2.2 rest, rfl⟩⟩)
    simp [Fields.tokens]

theorem Items.read : ∀ f : Items, f.Fit → ∀ rest,
    Yields (parseItems (f.tokens ++ rest)) (f.exprs, f.closing) rest
  | .close closing, _, rest => yields_parseItems_iff.mpr (.inl ⟨rfl, rfl⟩)
  | .last item closing, hf, rest => by
    have hstop : Stops 0 (⟨.symbol .closeBracket, closing⟩ :: rest) := stops_symbol closing rest rfl
    have hitem := item.read.at (Nat.zero_le _) hf hstop
    rw [Items.tokens, List.append_assoc, List.singleton_append]
    exact yields_parseItems_iff.mpr (.inr ⟨item.expr, _, hitem, .inl ⟨rfl, rfl⟩⟩)
  | .more item comma more, hf, rest => by
    have hstop : Stops 0 (⟨.symbol .comma, comma⟩ :: (more.tokens ++ rest)) := stops_symbol comma _ rfl
    have hitem := item.read.at (Nat.zero_le _) hf.1 hstop
    rw [Items.tokens, List.append_assoc, List.cons_append]
    exact yields_parseItems_iff.mpr (.inr ⟨item.expr, _, hitem,
      .inr ⟨comma, _, more.exprs, rfl, more.read hf.2 rest, rfl⟩⟩)

end

/-! ## A phrase is known by its tree and its tokens -/

theorem keyToken_injective {quoted quoted' : Bool} {key : Name}
    (h : keyToken quoted key = keyToken quoted' key) :
    quoted = quoted' := by
  cases quoted <;> cases quoted' <;> simp [keyToken] at h ⊢

/-- Two lists that begin with tokens of one kind begin with the same token if they are equal. -/
theorem span_eq_of_cons_eq {node : Token} {span span' : Span} {us vs : List Lexeme}
    (h : (⟨node, span⟩ : Lexeme) :: us = ⟨node, span'⟩ :: vs) : span = span' ∧ us = vs := by
  obtain ⟨hhead, htail⟩ := List.cons.inj h
  exact ⟨(Located.mk.inj hhead).2, htail⟩

theorem field_eq_of_tokens {quoted quoted' : Bool} {key : Name} {colon colon' : Span} {us vs : List Lexeme}
    (h : (⟨keyToken quoted key, key.span⟩ : Lexeme) :: ⟨.symbol .colon, colon⟩ :: us =
      ⟨keyToken quoted' key, key.span⟩ :: ⟨.symbol .colon, colon'⟩ :: vs) :
    quoted = quoted' ∧ colon = colon' ∧ us = vs := by
  obtain ⟨hhead, htail⟩ := List.cons.inj h
  obtain ⟨hcolon, hmore⟩ := span_eq_of_cons_eq htail
  exact ⟨keyToken_injective (Located.mk.inj hhead).1, hcolon, hmore⟩

mutual

theorem Phrase.eq_of_expr_of_tokens : ∀ {p q : Phrase} {us vs : List Lexeme}, p.expr = q.expr →
    p.tokens ++ us = q.tokens ++ vs → p = q ∧ us = vs
  | .string span text, q, us, vs, he, ht => by
    cases q <;> simp_all [Phrase.expr, Phrase.tokens]
  | .number span value spelling, q, us, vs, he, ht => by
    cases q <;> simp_all [Phrase.expr, Phrase.tokens]
  | .boolean span value, q, us, vs, he, ht => by
    cases q <;> simp_all [Phrase.expr, Phrase.tokens]
  | .identifier span name, q, us, vs, he, ht => by
    cases q <;> simp_all [Phrase.expr, Phrase.tokens]
  | .unary op mark operand, q, us, vs, he, ht => by
    cases q with
    | unary op' mark' operand' =>
      obtain ⟨-, rfl, hoperand⟩ := Expr.unary.inj he
      obtain ⟨rfl, hmore⟩ := span_eq_of_cons_eq ht
      obtain ⟨rfl, rfl⟩ := Phrase.eq_of_expr_of_tokens hoperand hmore
      exact ⟨rfl, rfl⟩
    | _ => exact absurd he (by simp [Phrase.expr])
  | .binary lhs op mark rhs, q, us, vs, he, ht => by
    cases q with
    | binary lhs' op' mark' rhs' =>
      obtain ⟨-, rfl, hlhs, hrhs⟩ := Expr.binary.inj he
      simp only [Phrase.tokens, List.append_assoc, List.cons_append] at ht
      obtain ⟨rfl, hmore⟩ := Phrase.eq_of_expr_of_tokens hlhs ht
      obtain ⟨rfl, hright⟩ := span_eq_of_cons_eq hmore
      obtain ⟨rfl, rfl⟩ := Phrase.eq_of_expr_of_tokens hrhs hright
      exact ⟨rfl, rfl⟩
    | _ => exact absurd he (by simp [Phrase.expr])
  | .group opening inner closing, q, us, vs, he, ht => by
    cases q with
    | group opening' inner' closing' =>
      obtain ⟨-, hinner⟩ := Expr.group.inj he
      simp only [Phrase.tokens, List.append_assoc, List.cons_append, List.nil_append] at ht
      obtain ⟨rfl, hmore⟩ := span_eq_of_cons_eq ht
      obtain ⟨rfl, hend⟩ := Phrase.eq_of_expr_of_tokens hinner hmore
      obtain ⟨rfl, rfl⟩ := span_eq_of_cons_eq hend
      exact ⟨rfl, rfl⟩
    | _ => exact absurd he (by simp [Phrase.expr])
  | .object opening fields, q, us, vs, he, ht => by
    cases q with
    | object opening' fields' =>
      obtain ⟨-, hfields⟩ := Expr.object.inj he
      obtain ⟨rfl, hmore⟩ := span_eq_of_cons_eq ht
      obtain ⟨rfl, rfl⟩ := Fields.eq_of_entries_of_tokens hfields hmore
      exact ⟨rfl, rfl⟩
    | _ => exact absurd he (by simp [Phrase.expr])
  | .array opening items, q, us, vs, he, ht => by
    cases q with
    | array opening' items' =>
      obtain ⟨-, hitems⟩ := Expr.array.inj he
      obtain ⟨rfl, hmore⟩ := span_eq_of_cons_eq ht
      obtain ⟨rfl, rfl⟩ := Items.eq_of_exprs_of_tokens hitems hmore
      exact ⟨rfl, rfl⟩
    | _ => exact absurd he (by simp [Phrase.expr])

theorem Fields.eq_of_entries_of_tokens : ∀ {f g : Fields} {us vs : List Lexeme}, f.entries = g.entries →
    f.tokens ++ us = g.tokens ++ vs → f = g ∧ us = vs
  | .close closing, g, us, vs, he, ht => by
    cases g <;> simp_all [Fields.entries, Fields.tokens]
  | .last quoted key colon value closing, g, us, vs, he, ht => by
    cases g with
    | close closing' => exact absurd he (by simp [Fields.entries])
    | last quoted' key' colon' value' closing' =>
      simp only [Fields.entries, List.cons.injEq, Prod.mk.injEq] at he
      simp only [Fields.tokens, List.cons_append, List.append_assoc, List.nil_append] at ht
      obtain ⟨⟨rfl, hvalue⟩, -⟩ := he
      obtain ⟨rfl, rfl, hmore⟩ := field_eq_of_tokens ht
      obtain ⟨rfl, hend⟩ := Phrase.eq_of_expr_of_tokens hvalue hmore
      obtain ⟨rfl, rfl⟩ := span_eq_of_cons_eq hend
      exact ⟨rfl, rfl⟩
    | more quoted' key' colon' value' comma' rest' =>
      -- One of the two goes on with a comma where the other is closed.
      simp only [Fields.entries, List.cons.injEq, Prod.mk.injEq] at he
      simp only [Fields.tokens, List.cons_append, List.append_assoc, List.nil_append] at ht
      obtain ⟨⟨rfl, hvalue⟩, -⟩ := he
      obtain ⟨rfl, rfl, hmore⟩ := field_eq_of_tokens ht
      obtain ⟨rfl, hend⟩ := Phrase.eq_of_expr_of_tokens hvalue hmore
      simp at hend
  | .more quoted key colon value comma rest, g, us, vs, he, ht => by
    cases g with
    | close closing' => exact absurd he (by simp [Fields.entries])
    | last quoted' key' colon' value' closing' =>
      simp only [Fields.entries, List.cons.injEq, Prod.mk.injEq] at he
      simp only [Fields.tokens, List.cons_append, List.append_assoc, List.nil_append] at ht
      obtain ⟨⟨rfl, hvalue⟩, -⟩ := he
      obtain ⟨rfl, rfl, hmore⟩ := field_eq_of_tokens ht
      obtain ⟨rfl, hend⟩ := Phrase.eq_of_expr_of_tokens hvalue hmore
      simp at hend
    | more quoted' key' colon' value' comma' rest' =>
      simp only [Fields.entries, List.cons.injEq, Prod.mk.injEq] at he
      simp only [Fields.tokens, List.cons_append, List.append_assoc] at ht
      obtain ⟨⟨rfl, hvalue⟩, hrest⟩ := he
      obtain ⟨rfl, rfl, hmore⟩ := field_eq_of_tokens ht
      obtain ⟨rfl, hend⟩ := Phrase.eq_of_expr_of_tokens hvalue hmore
      obtain ⟨rfl, hfields⟩ := span_eq_of_cons_eq hend
      obtain ⟨rfl, rfl⟩ := Fields.eq_of_entries_of_tokens hrest hfields
      exact ⟨rfl, rfl⟩

theorem Items.eq_of_exprs_of_tokens : ∀ {f g : Items} {us vs : List Lexeme}, f.exprs = g.exprs →
    f.tokens ++ us = g.tokens ++ vs → f = g ∧ us = vs
  | .close closing, g, us, vs, he, ht => by
    cases g <;> simp_all [Items.exprs, Items.tokens]
  | .last item closing, g, us, vs, he, ht => by
    cases g with
    | close closing' => exact absurd he (by simp [Items.exprs])
    | last item' closing' =>
      simp only [Items.exprs, List.cons.injEq] at he
      simp only [Items.tokens, List.append_assoc, List.cons_append, List.nil_append] at ht
      obtain ⟨rfl, hend⟩ := Phrase.eq_of_expr_of_tokens he.1 ht
      obtain ⟨rfl, rfl⟩ := span_eq_of_cons_eq hend
      exact ⟨rfl, rfl⟩
    | more item' comma' rest' =>
      simp only [Items.exprs, List.cons.injEq] at he
      simp only [Items.tokens, List.append_assoc, List.cons_append, List.nil_append] at ht
      obtain ⟨rfl, hend⟩ := Phrase.eq_of_expr_of_tokens he.1 ht
      simp at hend
  | .more item comma rest, g, us, vs, he, ht => by
    cases g with
    | close closing' => exact absurd he (by simp [Items.exprs])
    | last item' closing' =>
      simp only [Items.exprs, List.cons.injEq] at he
      simp only [Items.tokens, List.append_assoc, List.cons_append, List.nil_append] at ht
      obtain ⟨rfl, hend⟩ := Phrase.eq_of_expr_of_tokens he.1 ht
      simp at hend
    | more item' comma' rest' =>
      simp only [Items.exprs, List.cons.injEq] at he
      simp only [Items.tokens, List.append_assoc, List.cons_append] at ht
      obtain ⟨rfl, hend⟩ := Phrase.eq_of_expr_of_tokens he.1 ht
      obtain ⟨rfl, hitems⟩ := span_eq_of_cons_eq hend
      obtain ⟨rfl, rfl⟩ := Items.eq_of_exprs_of_tokens he.2 hitems
      exact ⟨rfl, rfl⟩

end

/-- The tokens of one phrase are the tokens of no other. -/
theorem Phrase.eq_of_tokens_eq {p q : Phrase} (hp : p.Fits 0) (hq : q.Fits 0)
    (h : p.tokens = q.tokens) : p = q := by
  have hread := p.read.at (Nat.zero_le _) hp (stops_nil 0)
  have hread' := q.read.at (Nat.zero_le _) hq (stops_nil 0)
  rw [h] at hread
  have hexpr : p.expr = q.expr := (hread.unique hread').1
  exact (Phrase.eq_of_expr_of_tokens hexpr (congrArg (· ++ []) h)).1

end BranchingStory.Expr
