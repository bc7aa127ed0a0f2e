import BranchingStory.Proofs.Expr.Nesting

/-! # How deep a descent goes

The nesting counted from the tokens is known in two more ways. In the tree of a phrase it is the greatest
number of brackets and prefix operators that are open around one position. And no reader that descends
along the grammar, wherever it stands and whether it comes to an end or fails, has more of them open. -/

namespace BranchingStory.Expr
set_option autoImplicit false

open Nesting

/-! ## What is open around a position -/

/-- How many stretches of tokens go on at a place between two tokens; a place is counted by the tokens
before it. -/
def openAround (stretches : List (Nat × Nat)) (place : Nat) : Nat :=
  stretches.countP fun s => s.1 < place ∧ place < s.2

mutual

/-- The stretch of every bracketed form, from its opening to its closing bracket, and of every prefix
operator, to the end of its operand, in a phrase that begins behind so many tokens. -/
def Phrase.stretches (begin : Nat) : Phrase → List (Nat × Nat)
  | .string _ _ | .number _ _ _ | .boolean _ _ | .identifier _ _ => []
  | .unary op mark operand =>
    (begin, begin + (Phrase.unary op mark operand).tokens.length) :: operand.stretches (begin + 1)
  | .binary lhs _ _ rhs => lhs.stretches begin ++ rhs.stretches (begin + lhs.tokens.length + 1)
  | .group opening inner closing =>
    (begin, begin + (Phrase.group opening inner closing).tokens.length) :: inner.stretches (begin + 1)
  | .object opening fields =>
    (begin, begin + (Phrase.object opening fields).tokens.length) :: fields.stretches (begin + 1)
  | .array opening items =>
    (begin, begin + (Phrase.array opening items).tokens.length) :: items.stretches (begin + 1)

def Fields.stretches (begin : Nat) : Fields → List (Nat × Nat)
  | .close _ => []
  | .last _ _ _ value _ => value.stretches (begin + 2)
  | .more _ _ _ value _ rest =>
    value.stretches (begin + 2) ++ rest.stretches (begin + 2 + value.tokens.length + 1)

def Items.stretches (begin : Nat) : Items → List (Nat × Nat)
  | .close _ => []
  | .last item _ => item.stretches begin
  | .more item _ rest => item.stretches begin ++ rest.stretches (begin + item.tokens.length + 1)

end

/-- Do the stretches lie between two places, with at most this many open at once, and so many somewhere? -/
structure Covers (stretches : List (Nat × Nat)) (first last depth : Nat) : Prop where
  within : ∀ s ∈ stretches, first ≤ s.1 ∧ s.2 ≤ last
  le : ∀ place, openAround stretches place ≤ depth
  attained : ∃ place, first ≤ place ∧ place < last ∧ openAround stretches place = depth

namespace Covers
variable {xs ys : List (Nat × Nat)} {first middle next last depth depth' : Nat}

theorem nil (h : first < last) : Covers [] first last 0 where
  within _ hs := absurd hs List.not_mem_nil
  le _ := Nat.le_refl 0
  attained := ⟨first, Nat.le_refl _, h, rfl⟩

theorem mono (h : Covers xs middle next depth) (hfirst : first ≤ middle) (hlast : next ≤ last) :
    Covers xs first last depth where
  within s hs := ⟨Nat.le_trans hfirst (h.within s hs).1, Nat.le_trans (h.within s hs).2 hlast⟩
  le := h.le
  attained := by
    obtain ⟨place, hge, hlt, heq⟩ := h.attained
    exact ⟨place, Nat.le_trans hfirst hge, Nat.lt_of_lt_of_le hlt hlast, heq⟩

theorem openAround_eq_zero (h : Covers xs first last depth) {place : Nat}
    (hplace : place ≤ first ∨ last ≤ place) : openAround xs place = 0 := by
  refine List.countP_eq_zero.mpr fun s hs hopen => ?_
  obtain ⟨hfirst, hlast⟩ := h.within s hs
  have hbetween := of_decide_eq_true hopen
  omega

/-- Side by side, two lists of stretches are never open at once. -/
theorem append (h : Covers xs first middle depth) (h' : Covers ys next last depth')
    (hmiddle : middle ≤ next) : Covers (xs ++ ys) first last (max depth depth') := by
  have hsum : ∀ place, openAround (xs ++ ys) place = openAround xs place + openAround ys place :=
    fun place => List.countP_append
  obtain ⟨here, hge, hlt, heq⟩ := h.attained
  obtain ⟨there, hge', hlt', heq'⟩ := h'.attained
  refine ⟨fun s hs => ?_, fun place => ?_, ?_⟩
  · rcases List.mem_append.mp hs with hleft | hright
    · obtain ⟨hfirst, hlast⟩ := h.within s hleft
      omega
    · obtain ⟨hfirst, hlast⟩ := h'.within s hright
      omega
  · rw [hsum]
    rcases Nat.lt_or_ge place middle with hbefore | hbehind
    · rw [h'.openAround_eq_zero (.inl (by omega)), Nat.add_zero]
      exact Nat.le_trans (h.le place) (Nat.le_max_left ..)
    · rw [h.openAround_eq_zero (.inr hbehind), Nat.zero_add]
      exact Nat.le_trans (h'.le place) (Nat.le_max_right ..)
  · rcases Nat.le_total depth' depth with hmax | hmax
    · refine ⟨here, hge, by omega, ?_⟩
      rw [hsum, heq, h'.openAround_eq_zero (.inl (by omega)), Nat.max_eq_left hmax, Nat.add_zero]
    · refine ⟨there, by omega, hlt', ?_⟩
      rw [hsum, heq', h.openAround_eq_zero (.inr (by omega)), Nat.max_eq_right hmax, Nat.zero_add]

/-- One stretch around all the others is open wherever they are. -/
theorem cons (h : Covers xs (first + 1) last depth) : Covers ((first, last) :: xs) first last (depth + 1) := by
  obtain ⟨place, hge, hlt, heq⟩ := h.attained
  refine ⟨fun s hs => ?_, fun place => ?_, ⟨place, by omega, hlt, ?_⟩⟩
  · rcases List.mem_cons.mp hs with rfl | hs
    · exact ⟨Nat.le_refl _, Nat.le_refl _⟩
    · obtain ⟨hfirst, hlast⟩ := h.within s hs
      omega
  · have hinner := h.le place
    rw [openAround, List.countP_cons] at *
    split <;> omega
  · rw [openAround, List.countP_cons, if_pos (decide_eq_true ⟨by omega, hlt⟩)]
    exact congrArg (· + 1) heq

end Covers

mutual

theorem Phrase.covers : ∀ (p : Phrase) (begin : Nat),
    Covers (p.stretches begin) begin (begin + p.tokens.length) p.expr.depth
  | .string _ _, begin | .number _ _ _, begin | .boolean _ _, begin | .identifier _ _, begin =>
    .nil (Nat.lt_succ_self begin)
  | .unary _ _ operand, begin =>
    .cons ((Phrase.covers operand (begin + 1)).mono (Nat.le_refl _) (by simp [Phrase.tokens]; omega))
  | .binary lhs _ _ rhs, begin =>
    ((Phrase.covers lhs begin).append (Phrase.covers rhs _) (Nat.le_succ _)).mono (Nat.le_refl _)
      (by simp [Phrase.tokens]; omega)
  | .group _ inner _, begin =>
    .cons ((Phrase.covers inner (begin + 1)).mono (Nat.le_refl _) (by simp [Phrase.tokens]; omega))
  | .object _ fields, begin =>
    .cons ((Fields.covers fields (begin + 1)).mono (Nat.le_refl _) (by simp [Phrase.tokens]; omega))
  | .array _ items, begin =>
    .cons ((Items.covers items (begin + 1)).mono (Nat.le_refl _) (by simp [Phrase.tokens]; omega))

theorem Fields.covers : ∀ (f : Fields) (begin : Nat),
    Covers (f.stretches begin) begin (begin + f.tokens.length) (depthOfFields f.entries)
  | .close _, begin => .nil (Nat.lt_succ_self begin)
  | .last _ _ _ value _, begin => by
    rw [Fields.entries, depthOfFields, depthOfFields, Nat.max_zero]
    exact (Phrase.covers value (begin + 2)).mono (Nat.le_add_right begin 2)
      (by simp [Fields.tokens]; omega)
  | .more _ _ _ value _ rest, begin =>
    ((Phrase.covers value (begin + 2)).append (Fields.covers rest _) (Nat.le_succ _)).mono
      (Nat.le_add_right begin 2) (by simp [Fields.tokens]; omega)

theorem Items.covers : ∀ (f : Items) (begin : Nat),
    Covers (f.stretches begin) begin (begin + f.tokens.length) (depthOfItems f.exprs)
  | .close _, begin => .nil (Nat.lt_succ_self begin)
  | .last item _, begin => by
    rw [Items.exprs, depthOfItems, depthOfItems, Nat.max_zero]
    exact (Phrase.covers item begin).mono (Nat.le_refl _) (by simp [Items.tokens])
  | .more item _ rest, begin =>
    ((Phrase.covers item begin).append (Items.covers rest _) (Nat.le_succ _)).mono (Nat.le_refl _)
      (by simp [Items.tokens]; omega)

end

/-! ## Where a descent can stand -/

/-- What a descent asks for at a place: an operand of a level, or what stands in braces or in brackets. -/
inductive Asked where
  | operand (level : Nat)
  | field
  | item
deriving DecidableEq

/-- What is asked for behind an opening bracket. -/
def Asked.behind? : Symbol → Option Asked
  | .openParen => some (.operand 0)
  | .openBrace => some .field
  | .openBracket => some .item
  | _ => none

/-- Can a descent along the grammar ask for this behind these tokens, with so many brackets and prefix
operators open? It goes from a level to a tighter one without taking a token, behind an operator to the
operand right of it, and into whatever a token opens. What it has read to the end are phrases. -/
inductive Stands : List Lexeme → Asked → Nat → Prop
  | start : Stands [] (.operand 0) 0
  | tighter {front : List Lexeme} {level depth : Nat} (hlevel : level < operandLevel)
      (h : Stands front (.operand level) depth) : Stands front (.operand (level + 1)) depth
  | right {front : List Lexeme} {depth : Nat} {lhs : Phrase} {op : BinaryOp} (mark : Span)
      (hlhs : lhs.Fits op.level) (h : Stands front (.operand op.level) depth) :
      Stands (front ++ (lhs.tokens ++ [⟨op.token, mark⟩])) (.operand (op.level + 1)) depth
  | behindPrefix {front : List Lexeme} {depth : Nat} (op : UnaryOp) (mark : Span)
      (h : Stands front (.operand operandLevel) depth) :
      Stands (front ++ [⟨op.token, mark⟩]) (.operand operandLevel) (depth + 1)
  | inside {front : List Lexeme} {depth : Nat} {s : Symbol} {asked : Asked} (opening : Span)
      (hs : Asked.behind? s = some asked) (h : Stands front (.operand operandLevel) depth) :
      Stands (front ++ [⟨.symbol s, opening⟩]) asked (depth + 1)
  | value {front : List Lexeme} {depth : Nat} {quoted : Bool} {key : Name} (colon : Span)
      (hkey : quoted = false → key.node ∉ Token.reservedWords) (h : Stands front .field depth) :
      Stands (front ++ [⟨keyToken quoted key, key.span⟩, ⟨.symbol .colon, colon⟩]) (.operand 0) depth
  | nextField {front : List Lexeme} {depth : Nat} {quoted : Bool} {key : Name} {value : Phrase}
      (colon comma : Span) (hkey : quoted = false → key.node ∉ Token.reservedWords) (hvalue : value.Fits 0)
      (h : Stands front .field depth) :
      Stands (front ++ (⟨keyToken quoted key, key.span⟩ :: ⟨.symbol .colon, colon⟩ ::
        (value.tokens ++ [⟨.symbol .comma, comma⟩]))) .field depth
  | element {front : List Lexeme} {depth : Nat} (h : Stands front .item depth) :
      Stands front (.operand 0) depth
  | nextItem {front : List Lexeme} {depth : Nat} {item : Phrase} (comma : Span) (hitem : item.Fits 0)
      (h : Stands front .item depth) :
      Stands (front ++ (item.tokens ++ [⟨.symbol .comma, comma⟩])) .item depth

namespace Nesting
variable {n : Nesting} {asked : Asked} {depth : Nat}

theorem run_cons (n : Nesting) (t : Lexeme) (ts : List Lexeme) : n.run (t :: ts) = (n.step t.node).run ts := rfl

/-- An operand and what separates it from the next one bring the count back to where it was. -/
theorem Rests.run_separated (h : n.Rests) {p : Phrase} {level : Nat} (hp : p.Fits level) {t : Lexeme}
    (ht : n.afterOperand.step t.node = n.beforeOperand) : n.run (p.tokens ++ [t]) = n := by
  have hleads := p.leads hp h.next (Nat.le_of_eq h.depth_eq.symm) (.inr h.depth_eq)
  rw [run_append, hleads.run_eq]
  exact ht.trans h.beforeOperand_eq

theorem Rests.run_key (h : n.Rests) {quoted : Bool} {key : Name} {colon : Span}
    (hkey : quoted = false → key.node ∉ Token.reservedWords) (ts : List Lexeme) :
    n.run (⟨keyToken quoted key, key.span⟩ :: ⟨.symbol .colon, colon⟩ :: ts) = n.run ts := by
  have hcolon : n.afterOperand.step (.symbol .colon) = n := h.beforeOperand_eq
  rw [run_cons, run_cons, step_keyToken n hkey, hcolon]

theorem step_opens {s : Symbol} (h : Asked.behind? s = some asked) : n.step (.symbol s) = n.opened := by
  cases s <;> first | rfl | exact absurd h (by simp [Asked.behind?])

/-- Has the count come as deep as this, with no prefix operator open that the place may not have? Only an
operand of the tightest level can stand behind a prefix operator. -/
structure Agrees (n : Nesting) (asked : Asked) (depth : Nat) : Prop where
  next : n.operandNext = true
  depth_eq : n.depth = depth
  base_le : n.base ≤ n.depth
  rests : asked = .operand operandLevel ∨ n.depth = n.base

theorem Rests.agrees (h : n.Rests) (asked : Asked) (hdepth : n.depth = depth) : n.Agrees asked depth :=
  ⟨h.next, hdepth, Nat.le_of_eq h.depth_eq.symm, .inr h.depth_eq⟩

theorem Agrees.toRests (h : n.Agrees asked depth) (hasked : asked ≠ .operand operandLevel) : n.Rests :=
  ⟨h.next, h.rests.resolve_left hasked⟩

theorem Agrees.toRests_of_lt {level : Nat} (h : n.Agrees (.operand level) depth) (hlevel : level < operandLevel) :
    n.Rests :=
  h.toRests fun heq => Nat.lt_irrefl _ (Asked.operand.inj heq ▸ hlevel)

end Nesting

/-- Wherever a descent stands, the count has come as deep as the descent. -/
theorem Stands.agrees {front : List Lexeme} {asked : Asked} {depth : Nat} (h : Stands front asked depth) :
    (Nesting.start.run front).Agrees asked depth := by
  induction h with
  | start => exact ⟨rfl, rfl, Nat.le_refl 0, .inr rfl⟩
  | tighter hlevel h ih => exact (ih.toRests_of_lt hlevel).agrees _ ih.depth_eq
  | @right front depth lhs op mark hlhs h ih =>
    have hrests := ih.toRests_of_lt op.level_lt
    rw [run_append, hrests.run_separated hlhs (step_operator _ op)]
    exact hrests.agrees _ ih.depth_eq
  | @behindPrefix front depth op mark h ih =>
    have hstep : (Nesting.start.run front).run [⟨op.token, mark⟩] = (Nesting.start.run front).deepen :=
      step_unary ih.next op
    rw [run_append, hstep]
    exact ⟨rfl, congrArg (· + 1) ih.depth_eq, Nat.le_succ_of_le ih.base_le, .inl rfl⟩
  | @inside front depth s asked opening hs h ih =>
    have hstep : (Nesting.start.run front).run [⟨.symbol s, opening⟩] = (Nesting.start.run front).opened :=
      step_opens hs
    rw [run_append, hstep]
    exact (rests_opened _).agrees _ (congrArg (· + 1) ih.depth_eq)
  | @value front depth quoted key colon hkey h ih =>
    have hrests := ih.toRests (by simp)
    rw [run_append, hrests.run_key hkey]
    exact hrests.agrees _ ih.depth_eq
  | @nextField front depth quoted key value colon comma hkey hvalue h ih =>
    have hrests := ih.toRests (by simp)
    rw [run_append, hrests.run_key hkey, hrests.run_separated hvalue rfl]
    exact hrests.agrees _ ih.depth_eq
  | element h ih => exact (ih.toRests (by simp)).agrees _ ih.depth_eq
  | @nextItem front depth item comma hitem h ih =>
    have hrests := ih.toRests (by simp)
    rw [run_append, hrests.run_separated hitem rfl]
    exact hrests.agrees _ ih.depth_eq

theorem depth_run_le (n : Nesting) (front more : List Lexeme) :
    (n.run front).depth ≤ max n.depth (deepest n (front ++ more)) := by
  induction front generalizing n with
  | nil => exact Nat.le_max_left ..
  | cons t front ih =>
    have hrest := ih (n.step t.node)
    rw [run_cons, List.cons_append, deepest]
    omega

theorem Stands.depth_le {front ts : List Lexeme} {asked : Asked} {depth : Nat} (h : Stands front asked depth)
    (hfront : front <+: ts) : depth ≤ nesting ts := by
  obtain ⟨more, rfl⟩ := hfront
  rw [← h.agrees.depth_eq]
  exact Nat.le_trans (depth_run_le .start front more) (Nat.max_le.mpr ⟨Nat.zero_le _, Nat.le_refl _⟩)

/-! ## How deep the reader goes -/

mutual

/-- How many brackets and prefix operators the reader of a level has open at once, at most, from when it is
called until it returns or fails. -/
def levelsAt (level : Nat) (ts : List Lexeme) : Nat :=
  if level < operandLevel then
    match parseAt (level + 1) ts with
    | some ⟨_, rest, _⟩ => max (levelsAt (level + 1) ts) (levelsInChain level rest)
    | none => levelsAt (level + 1) ts
  else
    match ts with
    | [] => 0
    | t :: rest =>
      match t.node.unaryOp? with
      | some _ => levelsAt level rest + 1
      | none =>
        match t.node with
        | .symbol .openParen => levelsAt 0 rest + 1
        | .symbol .openBrace => levelsInFields rest + 1
        | .symbol .openBracket => levelsInItems rest + 1
        | _ => 0
termination_by 8 * ts.length + (operandLevel - level)
decreasing_by all_goals (simp [operandLevel] at * <;> omega)

def levelsInChain (level : Nat) (ts : List Lexeme) : Nat :=
  match ts with
  | [] => 0
  | t :: rest =>
    match t.node.operatorAt? level with
    | some _ =>
      match parseAt (level + 1) rest with
      | some ⟨_, behind, _⟩ => max (levelsAt (level + 1) rest) (levelsInChain level behind)
      | none => levelsAt (level + 1) rest
    | none => 0
termination_by 8 * ts.length
decreasing_by all_goals (simp [operandLevel] at *; omega)

def levelsInFields (ts : List Lexeme) : Nat :=
  match expect? .closeBrace ts with
  | some _ => 0
  | none =>
    match take? keyOfLexeme? ts with
    | none => 0
    | some ⟨_, rest, _⟩ =>
      match expect? .colon rest with
      | none => 0
      | some ⟨_, rest, _⟩ =>
        match parseAt 0 rest with
        | none => levelsAt 0 rest
        | some ⟨_, behind, _⟩ =>
          match expect? .comma behind with
          | none => levelsAt 0 rest
          | some ⟨_, behind, _⟩ => max (levelsAt 0 rest) (levelsInFields behind)
termination_by 8 * ts.length + 7
decreasing_by all_goals (simp [operandLevel] at *; omega)

def levelsInItems (ts : List Lexeme) : Nat :=
  match expect? .closeBracket ts with
  | some _ => 0
  | none =>
    match parseAt 0 ts with
    | none => levelsAt 0 ts
    | some ⟨_, behind, _⟩ =>
      match expect? .comma behind with
      | none => levelsAt 0 ts
      | some ⟨_, behind, _⟩ => max (levelsAt 0 ts) (levelsInItems behind)
termination_by 8 * ts.length + 7
decreasing_by all_goals (simp [operandLevel] at * <;> omega)

end

/-- Is no descent deeper than this, wherever it stands in the tokens? -/
def Allows (ts : List Lexeme) (bound : Nat) : Prop :=
  ∀ front asked depth, Stands front asked depth → front <+: ts → depth ≤ bound

theorem Allows.depth_le {front ts : List Lexeme} {asked : Asked} {depth bound : Nat}
    (hts : Allows (front ++ ts) bound) (h : Stands front asked depth) : depth ≤ bound :=
  hts front asked depth h (List.prefix_append ..)

mutual

/-- The calls of the reader stand where a descent can stand. -/
theorem Stands.levelsAt_le {front ts : List Lexeme} {level depth bound : Nat} (hlevel : level ≤ operandLevel)
    (h : Stands front (.operand level) depth) (hts : Allows (front ++ ts) bound) :
    depth + levelsAt level ts ≤ bound := by
  have hhere := hts.depth_le h
  rw [levelsAt.eq_def]
  obtain hlt | rfl := Nat.lt_or_eq_of_le hlevel
  · have htight : depth + levelsAt (level + 1) ts ≤ bound :=
      Stands.levelsAt_le (Nat.succ_le_of_lt hlt) (h.tighter hlt) hts
    rw [if_pos hlt]
    split
    · next lhs rest hrest hread =>
      obtain ⟨p, hp, rfl, -⟩ := exists_phrase_of_parseAt (Nat.succ_le_of_lt hlt) ⟨hrest, hread⟩
      have hchain := Stands.levelsInChain_le hlt (hp.mono (Nat.le_succ level)) h hts
      omega
    · exact htight
  rw [if_neg (Nat.lt_irrefl _)]
  cases ts with
  | nil => exact hhere
  | cons t rest =>
  obtain ⟨op, ht⟩ | ht | ht | ht | hsingle := begin_cases t
  · rw [ht, ← List.singleton_append, ← List.append_assoc] at hts
    have hoperand := Stands.levelsAt_le (Nat.le_refl _) (h.behindPrefix op t.span) hts
    rw [ht]
    simp only [op.unaryOp?_token]
    omega
  · rw [ht, ← List.singleton_append, ← List.append_assoc] at hts
    have hinner := Stands.levelsAt_le (Nat.zero_le _) (h.inside t.span rfl) hts
    rw [ht]
    show depth + (levelsAt 0 rest + 1) ≤ bound
    omega
  · rw [ht, ← List.singleton_append, ← List.append_assoc] at hts
    have hfields := Stands.levelsInFields_le (h.inside t.span rfl) hts
    rw [ht]
    show depth + (levelsInFields rest + 1) ≤ bound
    omega
  · rw [ht, ← List.singleton_append, ← List.append_assoc] at hts
    have hitems := Stands.levelsInItems_le (h.inside t.span rfl) hts
    rw [ht]
    show depth + (levelsInItems rest + 1) ≤ bound
    omega
  · simp only [hsingle.not_unary]
    split
    · exact absurd ‹_› hsingle.not_paren
    · exact absurd ‹_› hsingle.not_brace
    · exact absurd ‹_› hsingle.not_bracket
    · exact hhere
termination_by 8 * ts.length + (operandLevel - level)
decreasing_by all_goals (subst_vars; simp only [List.length_cons, operandLevel] at *; omega)

theorem Stands.levelsInChain_le {front ts : List Lexeme} {level depth bound : Nat} (hlevel : level < operandLevel)
    {lhs : Phrase} (hlhs : lhs.Fits level) (h : Stands front (.operand level) depth)
    (hts : Allows (front ++ (lhs.tokens ++ ts)) bound) : depth + levelsInChain level ts ≤ bound := by
  have hhere := hts.depth_le h
  rw [levelsInChain.eq_def]
  cases ts with
  | nil => exact hhere
  | cons t rest =>
    cases hop : t.node.operatorAt? level with
    | none => simpa [hop] using hhere
    | some op =>
      obtain ⟨node, mark⟩ := t
      obtain ⟨rfl, rfl⟩ := Token.operatorAt?_eq_some_iff.mp hop
      have hsplit : front ++ (lhs.tokens ++ ⟨op.token, mark⟩ :: rest) =
          (front ++ (lhs.tokens ++ [⟨op.token, mark⟩])) ++ rest := by simp
      have hoperand : depth + levelsAt (op.level + 1) rest ≤ bound :=
        Stands.levelsAt_le (Nat.succ_le_of_lt hlevel) (h.right mark hlhs) (hsplit ▸ hts)
      simp only [hop]
      split
      · next rhs behind hbehind hread =>
        obtain ⟨q, hq, rfl, -⟩ := exists_phrase_of_parseAt (Nat.succ_le_of_lt hlevel) ⟨hbehind, hread⟩
        have hbinary : (Phrase.binary lhs op mark q).Fits op.level := ⟨Nat.le_refl _, hlhs, hq⟩
        have hwhole : lhs.tokens ++ ⟨op.token, mark⟩ :: (q.tokens ++ behind) =
            (Phrase.binary lhs op mark q).tokens ++ behind := by simp [Phrase.tokens]
        have hchain := Stands.levelsInChain_le hlevel hbinary h (hwhole ▸ hts)
        omega
      · exact hoperand
termination_by 8 * ts.length
decreasing_by all_goals (subst_vars; simp only [List.length_cons, operandLevel] at *; omega)

theorem Stands.levelsInFields_le {front ts : List Lexeme} {depth bound : Nat} (h : Stands front .field depth)
    (hts : Allows (front ++ ts) bound) : depth + levelsInFields ts ≤ bound := by
  have hhere := hts.depth_le h
  rw [levelsInFields.eq_def]
  split
  · exact hhere
  split
  · exact hhere
  next key rest hrest hkey =>
  split
  · exact hhere
  next colon us hus hcolon =>
  obtain ⟨t, rfl, hname⟩ := yields_take?_iff.mp ⟨hrest, hkey⟩
  obtain rfl := yields_expect?_iff.mp ⟨hus, hcolon⟩
  obtain ⟨quoted, rfl, hreserved⟩ := keyOfLexeme?_eq_some_iff.mp hname
  have hsplit : front ++ ⟨keyToken quoted key, key.span⟩ :: ⟨.symbol .colon, colon⟩ :: us =
      (front ++ [⟨keyToken quoted key, key.span⟩, ⟨.symbol .colon, colon⟩]) ++ us := by simp
  have hvalue := Stands.levelsAt_le (Nat.zero_le _) (h.value colon hreserved) (hsplit ▸ hts)
  split
  · exact hvalue
  next e behind hbehind hread =>
  split
  · exact hvalue
  next comma more hmore hcomma =>
  obtain ⟨p, hp, rfl, -⟩ := exists_phrase_of_parseAt (Nat.zero_le _) ⟨hbehind, hread⟩
  obtain rfl := yields_expect?_iff.mp ⟨hmore, hcomma⟩
  have hnext : front ++ ⟨keyToken quoted key, key.span⟩ :: ⟨.symbol .colon, colon⟩ ::
        (p.tokens ++ ⟨.symbol .comma, comma⟩ :: more) =
      (front ++ (⟨keyToken quoted key, key.span⟩ :: ⟨.symbol .colon, colon⟩ ::
        (p.tokens ++ [⟨.symbol .comma, comma⟩]))) ++ more := by simp
  have hfields := Stands.levelsInFields_le (h.nextField colon comma hreserved hp) (hnext ▸ hts)
  omega
termination_by 8 * ts.length + 7
decreasing_by all_goals (subst_vars; simp only [List.length_cons, operandLevel] at *; omega)

theorem Stands.levelsInItems_le {front ts : List Lexeme} {depth bound : Nat} (h : Stands front .item depth)
    (hts : Allows (front ++ ts) bound) : depth + levelsInItems ts ≤ bound := by
  have hhere := hts.depth_le h
  rw [levelsInItems.eq_def]
  split
  · exact hhere
  have hitem := Stands.levelsAt_le (Nat.zero_le _) h.element hts
  split
  · exact hitem
  next e behind hbehind hread =>
  split
  · exact hitem
  next comma more hmore hcomma =>
  obtain ⟨p, hp, rfl, -⟩ := exists_phrase_of_parseAt (Nat.zero_le _) ⟨hbehind, hread⟩
  obtain rfl := yields_expect?_iff.mp ⟨hmore, hcomma⟩
  have hnext : front ++ (p.tokens ++ ⟨.symbol .comma, comma⟩ :: more) =
      (front ++ (p.tokens ++ [⟨.symbol .comma, comma⟩])) ++ more := by simp
  have hitems := Stands.levelsInItems_le (h.nextItem comma hp) (hnext ▸ hts)
  omega
termination_by 8 * ts.length + 7
decreasing_by all_goals (subst_vars; simp only [List.length_cons, operandLevel] at *; omega)

end

/-- The nesting counted from the tokens is exact and safe. If the tokens are those of a phrase, it is the
greatest number of brackets and prefix operators that are open around one place of its tree. Whatever the
tokens are, no descent along the grammar has more of them open, and so neither has the reader; if the
nesting is within its bound, both stay within it. -/
theorem nesting_exact (ts : List Lexeme) :
    (∀ p : Phrase, p.Derives ts → (∀ place, openAround (p.stretches 0) place ≤ nesting ts) ∧
      ∃ place < ts.length, openAround (p.stretches 0) place = nesting ts) ∧
    (∀ front asked depth, Stands front asked depth → front <+: ts → depth ≤ nesting ts) ∧
    levelsAt 0 ts ≤ nesting ts ∧
    (nesting ts ≤ maxNesting → levelsAt 0 ts ≤ maxNesting ∧
      ∀ front asked depth, Stands front asked depth → front <+: ts → depth ≤ maxNesting) := by
  have hstands : Allows ts (nesting ts) := fun front asked depth h hfront => h.depth_le hfront
  have hreader : levelsAt 0 ts ≤ nesting ts := by
    have hlevels := Stands.levelsAt_le (Nat.zero_le _) .start hstands
    rwa [Nat.zero_add] at hlevels
  refine ⟨?_, hstands, hreader, fun hbound => ⟨Nat.le_trans hreader hbound, fun front asked depth h hfront =>
    Nat.le_trans (hstands front asked depth h hfront) hbound⟩⟩
  rintro p ⟨hp, rfl⟩
  have hcovers := p.covers 0
  rw [← p.nesting_tokens hp, Nat.zero_add] at hcovers
  obtain ⟨place, -, hlt, heq⟩ := hcovers.attained
  exact ⟨hcovers.le, place, hlt, heq⟩

/-- The tokens of `-[a]`: a prefix operator and a bracket are open around its identifier. -/
def negatedArray : Phrase :=
  .unary .negate ⟨0, 1⟩ (.array ⟨1, 2⟩ (.last (.identifier ⟨2, 3⟩ "a") ⟨3, 4⟩))

theorem nesting_exact_negatedArray :
    (∃ place < 4, openAround [(0, 4), (1, 4)] place = nesting negatedArray.tokens) ∧
      2 ≤ nesting negatedArray.tokens ∧ levelsAt 0 negatedArray.tokens ≤ maxNesting := by
  have hderives : negatedArray.Derives negatedArray.tokens :=
    ⟨by simp [negatedArray, Phrase.Fits, Items.Fit, Token.reservedWords], rfl⟩
  have hoperand : Stands [] (.operand operandLevel) 0 :=
    .tighter (by decide) (.tighter (by decide) (.tighter (by decide) (.tighter (by decide)
      (.tighter (by decide) (.tighter (by decide) .start)))))
  have hinside : Stands [⟨.symbol .minus, ⟨0, 1⟩⟩, ⟨.symbol .openBracket, ⟨1, 2⟩⟩] .item 2 :=
    .inside ⟨1, 2⟩ rfl (.behindPrefix .negate ⟨0, 1⟩ hoperand)
  have hprefix : [⟨.symbol .minus, ⟨0, 1⟩⟩, ⟨.symbol .openBracket, ⟨1, 2⟩⟩] <+: negatedArray.tokens :=
    ⟨[⟨.word "a", ⟨2, 3⟩⟩, ⟨.symbol .closeBracket, ⟨3, 4⟩⟩], rfl⟩
  exact ⟨((nesting_exact negatedArray.tokens).1 negatedArray hderives).2,
    (nesting_exact negatedArray.tokens).2.1 _ _ _ hinside hprefix,
    ((nesting_exact negatedArray.tokens).2.2.2 (by decide)).1⟩

end BranchingStory.Expr
